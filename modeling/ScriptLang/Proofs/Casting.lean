/-
# ScriptLang.Proofs.Casting -- values read back from their text

A cast from a string first cuts the white space at both ends.  What is left has one
description that does not mention how it is found: nothing but white space is around
it, and it neither starts nor ends with white space (`Text.Trims`).  An integer is
then a numeral, and a truth value is its name with any letters in upper case.

So the casts accept exactly these texts, and a cast undoes the text of a value of
its type: that text has no white space around it, and is itself a numeral or a name
(`Operation.convert_from_text`).
-/
import Mathlib.Data.List.Forall2
import Mathlib.Data.List.TakeWhile
import ScriptLang.Proofs.Numerals
import ScriptLang.Run.Operation

namespace ScriptLang

set_option autoImplicit false

/-! ## White space at the ends -/

namespace Text

/-- Whether characters are what is left of a text without the white space at its ends. -/
structure Trims (cs core : List Char) : Prop where
  around : ∃ before after, cs = before ++ core ++ after ∧
    (∀ c ∈ before, isBlank c = true) ∧ ∀ c ∈ after, isBlank c = true
  starts : ∀ c ∈ core.head?, isBlank c = false
  ends : ∀ c ∈ core.getLast?, isBlank c = false

theorem dropWhile_of_head {p : Char → Bool} {cs : List Char} (stops : ∀ c ∈ cs.head?, p c = false) :
    cs.dropWhile p = cs := by
  cases cs with
  | nil => rfl
  | cons c cs => exact List.dropWhile_cons_of_neg (by simp [stops c rfl])

theorem head_dropWhile (p : Char → Bool) (cs : List Char) :
    ∀ c ∈ (cs.dropWhile p).head?, p c = false := by
  intro c first
  have stops := List.head?_dropWhile_not p cs
  rw [Option.mem_def.1 first] at stops
  exact stops

/-- A tail that is cut off leaves the start of the text. -/
theorem dropTail_append (p : Char → Bool) (cs : List Char) :
    dropTail p cs ++ (cs.reverse.takeWhile p).reverse = cs := by
  rw [dropTail, ← List.reverse_append, List.takeWhile_append_dropWhile, List.reverse_reverse]

/-- What is cut to is what is left without the white space at the ends. -/
theorem trims_trimChars (cs : List Char) : Trims cs (trimChars cs) := by
  let rest := cs.dropWhile isBlank
  have split : trimChars cs ++ (rest.reverse.takeWhile isBlank).reverse = rest :=
    dropTail_append isBlank rest
  constructor
  · refine ⟨cs.takeWhile isBlank, (rest.reverse.takeWhile isBlank).reverse, ?_, ?_, ?_⟩
    · rw [List.append_assoc, split, List.takeWhile_append_dropWhile]
    · exact fun c member => List.mem_takeWhile_imp member
    · exact fun c member => List.mem_takeWhile_imp (List.mem_reverse.1 member)
  · intro c first
    refine head_dropWhile isBlank cs c ?_
    obtain ⟨core, same⟩ := List.head?_eq_some_iff.1 first
    show c ∈ rest.head?
    rw [← split, same]
    rfl
  · intro c last
    refine head_dropWhile isBlank rest.reverse c ?_
    rwa [trimChars, dropTail, List.getLast?_reverse] at last

/-- The white space at the ends is cut in one way only. -/
theorem Trims.eq_trimChars {cs core : List Char} (trims : Trims cs core) : trimChars cs = core := by
  obtain ⟨⟨before, after, rfl, blank, blank'⟩, starts, ends⟩ := trims
  rw [trimChars, List.append_assoc, List.dropWhile_append_of_pos blank]
  cases core with
  | nil =>
      have nothing : after.dropWhile isBlank = [] := List.dropWhile_eq_nil_iff.2 blank'
      rw [List.nil_append, nothing]
      rfl
  | cons c core =>
      have front : (c :: core ++ after).dropWhile isBlank = c :: core ++ after :=
        dropWhile_of_head starts
      have back : (c :: core).reverse.dropWhile isBlank = (c :: core).reverse :=
        dropWhile_of_head (by rwa [List.head?_reverse])
      have blank'' : ∀ d ∈ after.reverse, isBlank d = true := fun d member =>
        blank' d (List.mem_reverse.1 member)
      rw [front, dropTail, List.reverse_append, List.dropWhile_append_of_pos blank'', back,
        List.reverse_reverse]

/-- A text without white space is left as it is. -/
theorem trims_self {cs : List Char} (solid : ∀ c ∈ cs, isBlank c = false) : Trims cs cs where
  around := ⟨[], [], by rw [List.nil_append, List.append_nil], nofun, nofun⟩
  starts := fun c first => solid c (List.mem_of_mem_head? first)
  ends := fun c last => solid c (List.mem_of_mem_getLast? last)

end Text

/-! ## Truth values -/

namespace Operation

/-- Whether characters are the letters of a word in lower case, some of them in upper case. -/
def Capitalizes (word cs : List Char) : Prop := List.Forall₂ (fun d c => c = d ∨ c = d.toUpper) word cs

theorem toLower_eq_iff {d : Char} (small : d.isLower = true) (c : Char) :
    c.toLower = d ↔ c = d ∨ c = d.toUpper := by
  have range : 'a'.val ≤ d.val ∧ d.val ≤ 'z'.val :=
    ((Bool.and_eq_true_iff.1 small).imp of_decide_eq_true of_decide_eq_true)
  obtain ⟨valid, upper⟩ : ∃ valid, d.toUpper = ⟨d.val + ('A'.val - 'a'.val), valid⟩ :=
    ⟨_, dif_pos range⟩
  have lower : c.toLower.val =
      if c.val ≥ 'A'.val ∧ c.val ≤ 'Z'.val then c.val + ('a'.val - 'A'.val) else c.val := by
    by_cases inside : c.val ≥ 'A'.val ∧ c.val ≤ 'Z'.val
    · obtain ⟨valid, same⟩ : ∃ valid, c.toLower = ⟨c.val + ('a'.val - 'A'.val), valid⟩ :=
        ⟨_, dif_pos inside⟩
      rw [if_pos inside, same]
    · have same : c.toLower = c := dif_neg inside
      rw [if_neg inside, same]
  have codes : 'a'.val.toNat = 97 ∧ 'z'.val.toNat = 122 ∧ 'A'.val.toNat = 65 ∧
      'Z'.val.toNat = 90 := by decide
  have back : ('A'.val - 'a'.val).toNat = 4294967264 := by decide
  have forth : ('a'.val - 'A'.val).toNat = 32 := by decide
  rw [Char.ext_iff, Char.ext_iff, Char.ext_iff, upper, lower]
  simp only [← UInt32.toNat_inj, UInt32.le_iff_toNat_le, ge_iff_le] at range ⊢
  rw [UInt32.toNat_add, back]
  split
  · rw [UInt32.toNat_add, forth]
    omega
  · omega

theorem lower_eq_iff {word : List Char} (small : ∀ d ∈ word, d.isLower = true) (cs : List Char) :
    Reading.lower cs = word ↔ Capitalizes word cs := by
  unfold Reading.lower Capitalizes
  induction word generalizing cs with
  | nil => rw [List.map_eq_nil_iff, List.forall₂_nil_left_iff]
  | cons d word ih =>
      obtain ⟨first, small⟩ := List.forall_mem_cons.1 small
      cases cs with
      | nil => exact iff_of_false nofun nofun
      | cons c cs =>
          rw [List.map_cons, List.cons.injEq, List.forall₂_cons, toLower_eq_iff first, ih small]

/-- The text of a truth value. -/
theorem readBool?_eq_some_iff {cs : List Char} {b : Bool} :
    readBool? cs = some b ↔ Capitalizes (Value.bool b).text.toList cs := by
  have small : ∀ b, ∀ d ∈ (Value.bool b).text.toList, d.isLower = true := by
    rintro (_ | _) <;> exact List.all_eq_true.1 (by decide)
  have yes := lower_eq_iff (small true) cs
  have no := lower_eq_iff (small false) cs
  have differ : "true".toList ≠ "false".toList := by decide
  unfold readBool?
  cases b with
  | true =>
      rw [← yes]
      by_cases same : Reading.lower cs = "true".toList
      · exact iff_of_true (if_pos same) same
      · refine iff_of_false ?_ same
        rw [if_neg same]
        split <;> simp
  | false =>
      rw [← no]
      by_cases same : Reading.lower cs = "true".toList
      · rw [if_pos same, same]
        exact iff_of_false (by simp) differ
      · rw [if_neg same]
        by_cases same : Reading.lower cs = "false".toList
        · exact iff_of_true (if_pos same) same
        · exact iff_of_false (by rw [if_neg same]; exact nofun) same

theorem readBool?_text (b : Bool) : readBool? (Value.bool b).text.toList = some b := by
  cases b <;> decide

/-! ## Casts -/

theorem convert_int_str {s : String} {core : List Char} (trims : Text.Trims s.toList core) :
    convert .int (.str s) =
      match Reading.int? core with
      | some n => .ok (.int n)
      | none => .error (.unreadable s .int) := by
  cases trims.eq_trimChars
  rfl

theorem convert_bool_str {s : String} {core : List Char} (trims : Text.Trims s.toList core) :
    convert .bool (.str s) =
      match readBool? core with
      | some b => .ok (.bool b)
      | none => .error (.unreadable s .bool) := by
  cases trims.eq_trimChars
  rfl

/-- The text of an integer has no white space at its ends, since it consists of digits and a minus. -/
theorem trims_text_int (n : Int64) :
    Text.Trims (Value.int n).text.toList (Value.int n).text.toList := by
  refine Text.trims_self fun c member => ?_
  rw [Value.text, Reading.toList_text] at member
  rcases List.mem_append.1 member with sign | digit
  · split at sign
    · rw [List.mem_singleton.1 sign]
      rfl
    · cases sign
  · have digit := Nat.isDigit_of_mem_toDigits (by decide) (by decide) digit
    simp only [Char.isDigit, Bool.and_eq_true, decide_eq_true_eq, UInt32.le_iff_toNat_le,
      ge_iff_le] at digit
    have codes : '0'.val.toNat = 48 ∧ '9'.val.toNat = 57 := by decide
    simp only [Text.isBlank, Bool.or_eq_false_iff, Bool.and_eq_false_iff, decide_eq_false_iff_not,
      beq_eq_false_iff_ne, Char.toNat]
    omega

theorem trims_text_bool (b : Bool) :
    Text.Trims (Value.bool b).text.toList (Value.bool b).text.toList :=
  Text.trims_self fun c member =>
    Bool.eq_false_iff.2 (List.any_eq_false.1 (by cases b <;> decide) c member)

/-- A cast undoes the text of an integer, a truth value or a string.  From any other string only the
white space at its ends is cut, and an integer is read exactly from the numerals of that integer, a
truth value from its name in letters of any case; from everything else the cast fails. -/
theorem convert_from_text :
    ((∀ n : Int64, (convert .string (.int n)).bind (convert .int) = .ok (.int n)) ∧
      (∀ b : Bool, (convert .string (.bool b)).bind (convert .bool) = .ok (.bool b)) ∧
      ∀ s : String, (convert .string (.str s)).bind (convert .string) = .ok (.str s)) ∧
    ∀ s : String, ∃ core, (∀ other, Text.Trims s.toList other ↔ other = core) ∧
      (∀ n : Int64, convert .int (.str s) = .ok (.int n) ↔ Numeral core n.toInt) ∧
      ((∃ f, convert .int (.str s) = .error f ∧ f.kind = .conversion) ↔
        ∀ n : Int64, ¬ Numeral core n.toInt) ∧
      (∀ b : Bool, convert .bool (.str s) = .ok (.bool b) ↔
        Capitalizes (Value.bool b).text.toList core) ∧
      ((∃ f, convert .bool (.str s) = .error f ∧ f.kind = .conversion) ↔
        ∀ b : Bool, ¬ Capitalizes (Value.bool b).text.toList core) := by
  refine ⟨⟨fun n => ?_, fun b => ?_, fun s => rfl⟩, fun s => ?_⟩
  · show convert .int (.str (Value.int n).text) = .ok (.int n)
    rw [convert_int_str (trims_text_int n), Value.text, Reading.int?_text]
  · show convert .bool (.str (Value.bool b).text) = .ok (.bool b)
    rw [convert_bool_str (trims_text_bool b), readBool?_text]
  · have trims := Text.trims_trimChars s.toList
    refine ⟨Text.trimChars s.toList, fun other => ⟨fun h => h.eq_trimChars.symm, ?_⟩, ?_⟩
    · rintro rfl
      exact trims
    simp only [← Reading.int?_eq_some_iff, ← readBool?_eq_some_iff, convert_int_str trims,
      convert_bool_str trims]
    refine ⟨fun n => ?_, ?_, fun b => ?_, ?_⟩
    · cases Reading.int? (Text.trimChars s.toList) <;> simp
    · cases Reading.int? (Text.trimChars s.toList) <;> simp [Fault.kind]
    · cases readBool? (Text.trimChars s.toList) <;> simp
    · cases readBool? (Text.trimChars s.toList) <;> simp [Fault.kind]

end Operation

end ScriptLang
