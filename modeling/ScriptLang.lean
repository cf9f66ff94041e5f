import ScriptLang.Bound.Replace
import ScriptLang.Main
import ScriptLang.Proofs.Structured
import ScriptLang.Proofs.FlatCode
import ScriptLang.Proofs.Flattening
import ScriptLang.Proofs.MachineRun
import ScriptLang.Proofs.Renaming
import ScriptLang.Proofs.Lowering
import ScriptLang.Proofs.Soundness
import ScriptLang.Proofs.SafeCode
import ScriptLang.Proofs.Resolving
import ScriptLang.Proofs.Binding
import ScriptLang.Proofs.Sessions
import ScriptLang.Proofs.Listing
import ScriptLang.Proofs.Chaining
import ScriptLang.Proofs.Derived
import ScriptLang.Proofs.Reading
import ScriptLang.Proofs.Accepted
import ScriptLang.Proofs.Unambiguous
import ScriptLang.Proofs.Continuing
import ScriptLang.Proofs.Recovery
import ScriptLang.Proofs.TypingRules
import ScriptLang.Proofs.Judging
import ScriptLang.Proofs.Checking
import ScriptLang.Proofs.Respelling
import ScriptLang.Proofs.Refusals
import ScriptLang.Proofs.Scoping
import ScriptLang.Proofs.Naming
import ScriptLang.Proofs.Framing
import ScriptLang.Proofs.Placing
import ScriptLang.Proofs.Pointing
import ScriptLang.Proofs.Suppressing
import ScriptLang.Proofs.Nearest
import ScriptLang.Proofs.Respecting
import ScriptLang.Proofs.Ending
import ScriptLang.Proofs.Counting
import ScriptLang.Proofs.Contents
import ScriptLang.Proofs.Replacing
import ScriptLang.Proofs.Covering
import ScriptLang.Proofs.Relowering
import ScriptLang.Proofs.Showing
import ScriptLang.Proofs.Casting
import ScriptLang.Proofs.Rereading
import ScriptLang.Proofs.Spanning
import ScriptLang.Proofs.Wrapping
import ScriptLang.Proofs.Locating
import ScriptLang.Proofs.Suggesting
import ScriptLang.Proofs.Outlining
import ScriptLang.Proofs.Labels
