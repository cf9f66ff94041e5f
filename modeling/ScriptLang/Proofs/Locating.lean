/-
# ScriptLang.Proofs.Locating -- lines and columns are counted

The table of line starts makes lines quick to find.  What is found there is what
counting gives: the line of an offset is the number of newlines before it, and its
column the number of characters after the last of them (`Source.lineCol_front`).  A
newline itself belongs to the line that it ends.

The table is increasing and starts with zero, so a binary search for an offset either
finds it or stops at a place after the first (`Answers.line`).  An offset that is
further on has more newlines before it, or as many and more characters after the last
one, so lines and columns are in the order of the offsets.
-/
import Mathlib.Data.List.DropRight
import Mathlib.Data.Prod.Lex
import ScriptLang.Proofs.Pointing

namespace ScriptLang

set_option autoImplicit false

namespace Text

theorem takeBytes_cons (c : Char) (cs : List Char) (n : Nat) :
    takeBytes (c :: cs) (c.utf8Size + n) = c :: takeBytes cs n := by
  obtain ⟨k, size⟩ := Nat.exists_eq_add_of_lt c.utf8Size_pos
  have split : c.utf8Size + n = k + n + 1 := by omega
  have fits : c.utf8Size ≤ k + n + 1 := by omega
  rw [split, takeBytes, if_pos fits, ← split, Nat.add_sub_cancel_left]

theorem takeBytes_width (front rest : List Char) :
    takeBytes (front ++ rest) (width front) = front := by
  induction front with
  | nil => rw [width, takeBytes]
  | cons c cs ih => rw [width, List.cons_append, takeBytes_cons, ih]

end Text

/-! ## Searching a table -/

/-- What a binary search may answer: a place where the item stands, or without one the place where
it would have to be put in. -/
inductive Answers (xs : List Nat) (x : Nat) : Except Nat Nat → Prop
  | found {i : Nat} (here : xs[i]? = some x) : Answers xs x (.ok i)
  | missing {i : Nat} (within : i ≤ xs.length) (before : ∀ y ∈ xs.take i, y < x)
      (after : ∀ y ∈ xs.drop i, x < y) : Answers xs x (.error i)

section

variable {xs : List Nat} {x : Nat}

theorem length_takeWhile_le {k : Nat} (within : k ≤ xs.length) (before : ∀ y ∈ xs.take k, y ≤ x)
    (after : ∀ y ∈ xs.drop k, x < y) : (xs.takeWhile (· ≤ x)).length = k := by
  have early : ∀ y ∈ xs.take k, decide (y ≤ x) = true := fun y member =>
    decide_eq_true (before y member)
  have late : (xs.drop k).takeWhile (· ≤ x) = [] := by
    cases rest : xs.drop k with
    | nil => rfl
    | cons y ys =>
        have above := after y (rest ▸ List.mem_cons_self)
        exact List.takeWhile_cons_of_neg (by simpa using above)
  calc (xs.takeWhile (· ≤ x)).length
      = ((xs.take k ++ xs.drop k).takeWhile (· ≤ x)).length := by rw [List.take_append_drop]
    _ = (xs.take k).length := by rw [List.takeWhile_append_of_pos early, late, List.append_nil]
    _ = k := List.length_take_of_le within

/-- In an increasing table the items up to `x` come first, and those above it after them. -/
theorem split_takeWhile (sorted : xs.Pairwise (· < ·)) :
    (∀ y ∈ xs.take (xs.takeWhile (· ≤ x)).length, y ≤ x) ∧
      ∀ y ∈ xs.drop (xs.takeWhile (· ≤ x)).length, x < y := by
  induction xs with
  | nil => exact ⟨nofun, nofun⟩
  | cons z zs ih =>
      obtain ⟨first, sorted⟩ := List.pairwise_cons.1 sorted
      by_cases low : z ≤ x
      · have taken : (z :: zs).takeWhile (· ≤ x) = z :: zs.takeWhile (· ≤ x) :=
          List.takeWhile_cons_of_pos (decide_eq_true low)
        rw [taken]
        exact ⟨List.forall_mem_cons.2 ⟨low, (ih sorted).1⟩, (ih sorted).2⟩
      · have nothing : (z :: zs).takeWhile (· ≤ x) = [] :=
          List.takeWhile_cons_of_neg (by simpa using low)
        rw [nothing]
        have above := Nat.lt_of_not_le low
        exact ⟨nofun, List.forall_mem_cons.2
          ⟨above, fun y member => above.trans (first y member)⟩⟩

/-- In an increasing table a search has an answer. -/
theorem exists_answer (sorted : xs.Pairwise (· < ·)) : ∃ answer, Answers xs x answer := by
  by_cases member : x ∈ xs
  · obtain ⟨i, here⟩ := List.getElem?_of_mem member
    exact ⟨.ok i, .found here⟩
  · obtain ⟨before, after⟩ := split_takeWhile (x := x) sorted
    refine ⟨.error (xs.takeWhile (· ≤ x)).length, .missing ?_ (fun y inside => ?_) after⟩
    · exact (List.takeWhile_prefix _).length_le
    · exact lt_of_le_of_ne (before y inside) fun same => member (same ▸ List.mem_of_mem_take inside)

/-- In an increasing table that starts by `x` every answer is the place of the last item up to `x`, or
the place after it. -/
theorem Answers.line {first : Nat} (sorted : (first :: xs).Pairwise (· < ·)) (start : first ≤ x)
    {answer : Except Nat Nat} (answers : Answers (first :: xs) x answer) :
    match answer with
    | .ok i => ((first :: xs).takeWhile (· ≤ x)).length = i + 1
    | .error i => 0 < i ∧ ((first :: xs).takeWhile (· ≤ x)).length = i := by
  cases answers with
  | @found i here =>
      obtain ⟨within, here⟩ := List.getElem?_eq_some_iff.1 here
      refine length_takeWhile_le within ?_ ?_
      · intro y member
        obtain ⟨j, inside, rfl⟩ := List.mem_take_iff_getElem.1 member
        rw [← here]
        have upTo : j ≤ i :=
          Nat.le_of_lt_succ (Nat.lt_of_lt_of_le inside (Nat.min_le_left _ _))
        rcases Nat.lt_or_eq_of_le upTo with less | rfl
        · exact (List.pairwise_iff_getElem.1 sorted j i _ within less).le
        · exact Nat.le_refl _
      · intro y member
        obtain ⟨j, inside, rfl⟩ := List.mem_drop_iff_getElem.1 member
        rw [← here]
        exact List.pairwise_iff_getElem.1 sorted i _ within _ (by omega)
  | @missing i within before after =>
      refine ⟨Nat.pos_of_ne_zero ?_,
        length_takeWhile_le within (fun y member => (before y member).le) after⟩
      rintro rfl
      exact absurd start (Nat.not_le_of_lt (after first List.mem_cons_self))

end

namespace Source

/-! ## The table of line starts -/

theorem startsAfter_sorted (offset : Nat) (cs : List Char) :
    (startsAfter offset cs).Pairwise (· < ·) := by
  induction cs generalizing offset with
  | nil => exact .nil
  | cons c cs ih =>
      rw [startsAfter]
      split
      · exact .cons (fun n member => (startsAfter_bounds _ cs n member).1) (ih _)
      · exact ih _

theorem lineStarts_sorted (s : Source) : s.lineStarts.Pairwise (· < ·) :=
  .cons (fun n member => (startsAfter_bounds 0 _ n member).1) (startsAfter_sorted 0 _)

theorem startsAfter_concat (offset : Nat) (cs : List Char) (c : Char) :
    startsAfter offset (cs ++ [c]) =
      startsAfter offset cs ++ if c = '\n' then [offset + Text.width (cs ++ [c])] else [] := by
  rw [startsAfter_append, startsAfter, startsAfter, Text.width_append, Text.width, Text.width,
    Nat.add_zero, Nat.add_assoc]

/-- There is a line for every newline. -/
theorem length_startsAfter (offset : Nat) (cs : List Char) :
    (startsAfter offset cs).length = cs.count '\n' := by
  induction cs generalizing offset with
  | nil => rfl
  | cons c cs ih =>
      rw [startsAfter, List.count_cons]
      by_cases newline : c = '\n'
      · rw [if_pos newline, List.length_cons, ih, if_pos (beq_iff_eq.2 newline)]
      · rw [if_neg newline, ih, if_neg (by simpa using newline), Nat.add_zero]

/-- The last line starts after the last newline. -/
theorem getLastD_startsAfter (offset : Nat) (cs : List Char) :
    (startsAfter offset cs).getLastD offset =
      offset + Text.width (cs.rdropWhile (· ≠ '\n')) := by
  induction cs using List.reverseRecOn with
  | nil => rfl
  | append_singleton cs c ih =>
      rw [startsAfter_concat]
      by_cases newline : c = '\n'
      · rw [if_pos newline, List.getLastD_concat,
          List.rdropWhile_concat_neg _ _ _ (by simpa using newline)]
      · rw [if_neg newline, List.append_nil, ih,
          List.rdropWhile_concat_pos _ _ _ (by simpa using newline)]

/-- The next line starts after the next newline, if there is one. -/
theorem head?_startsAfter (offset : Nat) (cs : List Char) :
    (startsAfter offset cs).head? =
      (cs.dropWhile (· ≠ '\n')).head?.map fun c =>
        offset + Text.width (cs.takeWhile (· ≠ '\n') ++ [c]) := by
  induction cs generalizing offset with
  | nil => rfl
  | cons c cs ih =>
      rw [startsAfter, List.takeWhile_cons, List.dropWhile_cons]
      by_cases newline : c = '\n'
      · simp [newline, Text.width]
      · simp [newline, ih, Text.width, Nat.add_assoc]

/-! ## Lines and columns -/

variable {s : Source} {front rest : List Char}

theorem lineIndex_front (same : s.text.toList = front ++ rest) :
    s.lineIndex (Text.width front) = front.count '\n' := by
  rw [lineIndex, takeWhile_lineStarts same, List.length_cons, Nat.add_sub_cancel,
    length_startsAfter]

theorem getElem?_lineStarts (same : s.text.toList = front ++ rest) :
    s.lineStarts[front.count '\n']? = some (Text.width (front.rdropWhile (· ≠ '\n'))) := by
  have within : (startsAfter 0 front).length < s.lineStarts.length := by
    rw [lineStarts_eq same, List.length_append, List.length_cons]
    omega
  have start := getD_length_cons_append 0 (startsAfter 0 front) (startsAfter (Text.width front) rest)
  rw [← lineStarts_eq same, getLastD_startsAfter, Nat.zero_add,
    List.getD_eq_getElem?_getD, List.getElem?_eq_getElem within, Option.getD_some] at start
  rw [← length_startsAfter 0 front, List.getElem?_eq_getElem within, start]

theorem getElem?_lineStarts_succ (same : s.text.toList = front ++ rest) :
    s.lineStarts[front.count '\n' + 1]? = (startsAfter (Text.width front) rest).head? := by
  have past : (0 :: startsAfter 0 front).length = front.count '\n' + 1 := by
    rw [List.length_cons, length_startsAfter]
  rw [lineStarts_eq same, List.getElem?_append_right (Nat.le_of_eq past), past, Nat.sub_self,
    List.head?_eq_getElem?]

/-- A line starts by the offsets that it holds. -/
theorem exists_lineStart (s : Source) (n : Nat) :
    ∃ start, s.lineStarts[s.lineIndex n]? = some start ∧ start ≤ n := by
  have some : 0 < (s.lineStarts.takeWhile (· ≤ n)).length := Nat.succ_pos _
  have inside : s.lineIndex n < (s.lineStarts.takeWhile (· ≤ n)).length :=
    Nat.sub_one_lt_of_lt some
  have line := (List.takeWhile_prefix (l := s.lineStarts) (· ≤ n)).getElem inside
  have within : decide ((s.lineStarts.takeWhile (· ≤ n))[s.lineIndex n] ≤ n) = true :=
    List.mem_takeWhile_imp (p := fun start => decide (start ≤ n)) (List.getElem_mem inside)
  exact ⟨_, List.getElem?_eq_some_iff.2 ⟨_, line.symm⟩, of_decide_eq_true within⟩

/-- The line of an offset counts the newlines before it, and the column the characters after the last
of them. -/
theorem lineCol_front (same : s.text.toList = front ++ rest) :
    s.lineCol (Text.width front) =
      (1 + front.count '\n', 1 + (front.rtakeWhile (· ≠ '\n')).length) := by
  have parts : front.rdropWhile (· ≠ '\n') ++ front.rtakeWhile (· ≠ '\n') = front :=
    List.rdropWhile_append_rtakeWhile
  have whole : s.text.toList =
      front.rdropWhile (· ≠ '\n') ++ (front.rtakeWhile (· ≠ '\n') ++ rest) := by
    rw [← List.append_assoc, parts, same]
  have width : Text.width front = Text.width (front.rdropWhile (· ≠ '\n')) +
      Text.width (front.rtakeWhile (· ≠ '\n')) := by
    rw [← Text.width_append, parts]
  have within : Text.width front ≤ s.size := by
    rw [size, ← Text.width_toList, same, Text.width_append]
    exact Nat.le_add_right _ _
  unfold lineCol
  dsimp only
  rw [Nat.min_eq_left within, lineIndex_front same, List.getD_eq_getElem?_getD,
    getElem?_lineStarts same, Option.getD_some, whole, Text.dropBytes_width, width,
    Nat.add_sub_cancel_left, Text.charsIn?_width, Option.getD_some, Nat.add_comm 1, Nat.add_comm 1]

/-- The text of a line is what stands between the newlines around it, without the carriage returns at
its end. -/
theorem lineText_front (same : s.text.toList = front ++ rest) :
    s.lineText (front.count '\n') = String.ofList
      ((front.rtakeWhile (· ≠ '\n') ++ rest.takeWhile (· ≠ '\n')).rdropWhile Text.isLineEnd) := by
  have parts : front.rdropWhile (· ≠ '\n') ++ front.rtakeWhile (· ≠ '\n') = front :=
    List.rdropWhile_append_rtakeWhile
  have parts' : rest.takeWhile (· ≠ '\n') ++ rest.dropWhile (· ≠ '\n') = rest :=
    List.takeWhile_append_dropWhile
  have newline := List.head?_dropWhile_not (· ≠ '\n') rest
  have next := head?_startsAfter (Text.width front) rest
  rw [← getElem?_lineStarts_succ same] at next
  rw [lineText, getElem?_lineStarts same]
  dsimp only
  rw [next]
  generalize front.rdropWhile (· ≠ '\n') = before at parts ⊢
  generalize front.rtakeWhile (· ≠ '\n') = line at parts ⊢
  generalize rest.takeWhile (· ≠ '\n') = more at parts' ⊢
  generalize rest.dropWhile (· ≠ '\n') = after at parts' newline ⊢
  subst parts parts'
  have start : Text.dropBytes s.text.toList (Text.width before) = line ++ more ++ after := by
    rw [same, List.append_assoc, Text.dropBytes_width, List.append_assoc]
  rw [start]
  cases after with
  | nil =>
      have stop : s.size - Text.width before = Text.width (line ++ more) := by
        rw [size, ← Text.width_toList, same]
        simp only [Text.width_append, Text.width_nil]
        omega
      rw [List.head?_nil, Option.map_none, Option.getD_none, stop, Text.takeBytes_width]
      rfl
  | cons c after =>
      have ends : c = '\n' := by simpa using newline
      have stop : Text.width (before ++ line) + Text.width (more ++ [c]) - Text.width before =
          Text.width (line ++ more ++ [c]) := by
        simp only [Text.width_append]
        omega
      have split : line ++ more ++ c :: after = line ++ more ++ [c] ++ after := by
        rw [List.append_assoc _ [c], List.singleton_append]
      rw [List.head?_cons, Option.map_some, Option.getD_some, stop, split, Text.takeBytes_width]
      exact congrArg String.ofList (List.rdropWhile_concat_pos _ _ _ (by rw [ends]; rfl))

/-- What has no newline in it goes on with the last line. -/
theorem rtakeWhile_append {mid : List Char} (same : '\n' ∉ mid) :
    (front ++ mid).rtakeWhile (· ≠ '\n') = front.rtakeWhile (· ≠ '\n') ++ mid := by
  have goes : ∀ c ∈ mid.reverse, decide (c ≠ '\n') = true := fun c member =>
    decide_eq_true fun newline => same (newline ▸ List.mem_reverse.1 member)
  rw [List.rtakeWhile, List.reverse_append, List.takeWhile_append_of_pos goes, List.reverse_append,
    List.reverse_reverse, List.rtakeWhile]

/-- An offset that is further on has a later line, or a later column in the same line. -/
theorem lineCol_lt {m n : Nat} (here : s.Boundary m) (there : s.Boundary n) (less : m < n) :
    toLex (s.lineCol m) < toLex (s.lineCol n) := by
  obtain ⟨front, rest, same, rfl⟩ := boundary_iff.1 here
  obtain ⟨front', rest', same', rfl⟩ := boundary_iff.1 there
  obtain ⟨mid, rfl⟩ : ∃ mid, front' = front ++ mid := by
    rcases List.append_eq_append_iff.1 (same.symm.trans same') with
      ⟨mid, further, -⟩ | ⟨mid, back, -⟩
    · exact ⟨mid, further⟩
    · rw [back, Text.width_append] at less
      omega
  rw [lineCol_front same, lineCol_front same', Prod.Lex.toLex_lt_toLex, List.count_append]
  dsimp only
  by_cases newline : '\n' ∈ mid
  · have more : 0 < mid.count '\n' := List.count_pos_iff.2 newline
    exact .inl (by omega)
  · have some : mid ≠ [] := by
      rintro rfl
      rw [List.append_nil] at less
      exact absurd less (Nat.lt_irrefl _)
    have more : 0 < mid.length := List.length_pos_iff.2 some
    refine .inr ⟨by rw [List.count_eq_zero_of_not_mem newline, Nat.add_zero], ?_⟩
    rw [rtakeWhile_append newline, List.length_append]
    omega

/-- Lines and columns are counted.  At an offset that cuts no character the line is one more than the
newlines before it, the column one more than the characters after the last of them, and the text of
the line is what stands between the newlines around it without its terminator; an offset past the
end stands for the end.  Whatever a binary search in the table of line starts answers, it is not that
an offset stands before the first line, and the line that follows from it is the one that holds the
offset.  Lines and columns are in the order of the offsets. -/
theorem lineCol_exact (s : Source) :
    (∀ front rest : String, s.text = front ++ rest →
      s.lineCol front.utf8ByteSize =
        (1 + front.toList.count '\n', 1 + (front.toList.rtakeWhile (· ≠ '\n')).length) ∧
      s.lineText ((s.lineCol front.utf8ByteSize).1 - 1) = String.ofList
        ((front.toList.rtakeWhile (· ≠ '\n') ++ rest.toList.takeWhile (· ≠ '\n')).rdropWhile
          fun c => c = '\n' || c = '\r')) ∧
    (∀ n, s.size ≤ n → s.lineCol n = s.lineCol s.size) ∧
    (∀ n, (∃ answer, Answers s.lineStarts n answer) ∧
      (∀ line, Answers s.lineStarts n (.ok line) → s.lineIndex n = line) ∧
      (∀ next, Answers s.lineStarts n (.error next) → 0 < next ∧ s.lineIndex n = next - 1) ∧
      ∃ start, s.lineStarts[s.lineIndex n]? = some start ∧ start ≤ n) ∧
    (∀ m n, s.Boundary m → s.Boundary n → m < n → toLex (s.lineCol m) < toLex (s.lineCol n)) ∧
    Set.InjOn s.lineCol {n | s.Boundary n} := by
  refine ⟨fun front rest same => ?_, fun n past => ?_,
    fun n => ⟨exists_answer s.lineStarts_sorted, ?_, ?_, ?_⟩,
    fun m n here there => lineCol_lt here there, fun m here n there equal => ?_⟩
  · have same : s.text.toList = front.toList ++ rest.toList := by rw [same, String.toList_append]
    rw [← Text.width_toList, lineCol_front same]
    exact ⟨rfl, by rw [Nat.add_sub_cancel_left]; exact lineText_front same⟩
  · unfold lineCol
    rw [Nat.min_eq_right past, Nat.min_self]
  · intro line answers
    exact congrArg (· - 1) (answers.line s.lineStarts_sorted (Nat.zero_le n))
  · intro next answers
    obtain ⟨positive, place⟩ := answers.line s.lineStarts_sorted (Nat.zero_le n)
    exact ⟨positive, congrArg (· - 1) place⟩
  · exact s.exists_lineStart n
  · rcases Nat.lt_trichotomy m n with less | same | more
    · exact absurd (equal ▸ lineCol_lt here there less) (lt_irrefl _)
    · exact same
    · exact absurd (equal ▸ lineCol_lt there here more) (lt_irrefl _)

/-- Two umlauts, with an empty line between theirs. -/
def umlauts : Source := ⟨"é\r\n\nü x"⟩

theorem umlauts_located :
    (umlauts.text = "é\r\n\nü" ++ " x" ∧ umlauts.lineCol 7 = (3, 2) ∧
      umlauts.lineText 2 = "ü x") ∧
    (umlauts.size ≤ 12 ∧ umlauts.lineCol 12 = umlauts.lineCol umlauts.size) ∧
    (Answers umlauts.lineStarts 5 (.ok 2) ∧ umlauts.lineIndex 5 = 2) ∧
    (Answers umlauts.lineStarts 6 (.error 3) ∧ umlauts.lineIndex 6 = 2) ∧
    umlauts.Boundary 4 ∧ umlauts.Boundary 7 ∧
      toLex (umlauts.lineCol 4) < toLex (umlauts.lineCol 7) := by
  have same : umlauts.text = "é\r\n\nü" ++ " x" := rfl
  have past : umlauts.size ≤ 12 := by decide
  have at5 : Answers umlauts.lineStarts 5 (.ok 2) := .found (by decide)
  have at6 : Answers umlauts.lineStarts 6 (.error 3) :=
    .missing (by decide) (by decide) (by decide)
  have here : umlauts.Boundary 4 := boundary_iff.2
    ⟨['é', '\r', '\n'], ['\n', 'ü', ' ', 'x'], by decide, by decide⟩
  have there : umlauts.Boundary 7 := boundary_iff.2
    ⟨['é', '\r', '\n', '\n', 'ü'], [' ', 'x'], by decide, by decide⟩
  obtain ⟨counted, clamped, searched, increasing, -⟩ := lineCol_exact umlauts
  exact ⟨⟨same, counted _ _ same⟩, ⟨past, clamped 12 past⟩,
    ⟨at5, (searched 5).2.1 2 at5⟩, ⟨at6, ((searched 6).2.2.1 3 at6).2⟩,
    here, there, increasing 4 7 here there (by decide)⟩

end Source

end ScriptLang
