import Formula.Scope.CallStack
import Mathlib.Data.List.Infix

/-! # Histories of a call chain

The frames on a stack after any sequence of pushes and pops, told from the sequence alone: a frame
stays on the stack as long as what comes after it has never popped more frames than it has
pushed. -/

namespace Formula.CallStack

/-- A change of the call chain. -/
inductive Move where
  | push (frame : Frame)
  | pop

def Move.isPush : Move → Bool
  | push _ => true
  | pop => false

def Move.isPop : Move → Bool
  | push _ => false
  | pop => true

def move (s : CallStack) : Move → CallStack
  | .push frame => s.push frame
  | .pop => s.pop.2

/-- The stack after a history that starts without frames. -/
def after (history : List Move) : CallStack := history.foldl move {}

/-! ## What stays on the stack -/

/-- The moves keep the frames that are there before them: none of their beginnings has more pops
than pushes. -/
def KeepsEarlier (moves : List Move) : Prop :=
  ∀ beginning, beginning <+: moves → beginning.countP Move.isPop ≤ beginning.countP Move.isPush

/-- The number of frames from before the moves that the moves pop. -/
def popped : List Move → Nat
  | [] => 0
  | .push _ :: moves => popped moves - 1
  | .pop :: moves => popped moves + 1

theorem forall_prefix_cons {first : Move} {moves : List Move} {P : List Move → Prop} :
    (∀ beginning, beginning <+: first :: moves → P beginning) ↔
      P [] ∧ ∀ beginning, beginning <+: moves → P (first :: beginning) := by
  constructor
  · intro h
    exact ⟨h [] List.nil_prefix, fun beginning hbeginning =>
      h _ (List.prefix_cons_inj first |>.mpr hbeginning)⟩
  · rintro ⟨hnil, hcons⟩ beginning hbeginning
    rcases List.prefix_cons_iff.mp hbeginning with rfl | ⟨rest, rfl, hrest⟩
    · exact hnil
    · exact hcons rest hrest

/-- No beginning of the moves pops more than `n` frames beyond those that it pushes when no more
than `n` earlier frames are popped. -/
theorem popped_le_iff {moves : List Move} {n : Nat} :
    popped moves ≤ n ↔ ∀ beginning, beginning <+: moves →
      beginning.countP Move.isPop ≤ beginning.countP Move.isPush + n := by
  induction moves generalizing n with
  | nil => simp [popped]
  | cons first moves ih =>
      rw [forall_prefix_cons]
      cases first with
      | push frame =>
          simp only [popped, Nat.sub_le_iff_le_add, ih, List.countP_nil, Nat.zero_le, true_and,
            List.countP_cons, Move.isPop, Move.isPush, if_true, Bool.false_eq_true, if_false]
          refine forall₂_congr fun beginning _ => ?_
          omega
      | pop =>
          cases n with
          | zero =>
              refine iff_of_false (Nat.not_succ_le_zero _) fun ⟨_, h⟩ => ?_
              exact absurd (h [] List.nil_prefix) (by decide)
          | succ n =>
              simp only [popped, Nat.add_le_add_iff_right, ih, List.countP_nil, Nat.zero_le,
                true_and, List.countP_cons, Move.isPop, Move.isPush, if_true, Bool.false_eq_true,
                if_false]
              refine forall₂_congr fun beginning _ => ?_
              omega

theorem keepsEarlier_iff {moves : List Move} : KeepsEarlier moves ↔ popped moves = 0 := by
  rw [← Nat.le_zero, popped_le_iff]
  rfl

instance (moves : List Move) : Decidable (KeepsEarlier moves) :=
  decidable_of_iff _ keepsEarlier_iff.symm

/-- The frames that the moves push and that are there after them, the latest one first. -/
def survivors : List Move → List Frame
  | [] => []
  | .push frame :: moves => survivors moves ++ if KeepsEarlier moves then [frame] else []
  | .pop :: moves => survivors moves

/-- The moves push the frame and keep it, and the frames that they push later and keep are `above`
in number. -/
def Keeps (moves : List Move) (frame : Frame) (above : Nat) : Prop :=
  ∃ earlier later, moves = earlier ++ .push frame :: later ∧ KeepsEarlier later ∧
    (survivors later).length = above

/-! ## The stack -/

/-- The moves put the frames of theirs that survive on what they leave of the stack. -/
theorem frames_foldl_move (s : CallStack) (moves : List Move) :
    (moves.foldl move s).frames = survivors moves ++ s.frames.drop (popped moves) := by
  induction moves generalizing s with
  | nil => rfl
  | cons first moves ih =>
      rw [List.foldl_cons, ih]
      cases first with
      | push frame =>
          rw [survivors, popped, move, push, List.append_assoc]
          by_cases hkeeps : KeepsEarlier moves
          · rw [if_pos hkeeps, keepsEarlier_iff.mp hkeeps]
            rfl
          · rw [if_neg hkeeps]
            obtain ⟨n, hn⟩ := Nat.exists_eq_succ_of_ne_zero (mt keepsEarlier_iff.mpr hkeeps)
            rw [hn]
            rfl
      | pop => rw [survivors, popped, move, pop, List.drop_tail]

theorem frames_after (history : List Move) : (after history).frames = survivors history := by
  rw [after, frames_foldl_move, List.drop_nil, List.append_nil]

theorem getElem?_concat {frames : List Frame} {last frame : Frame} {i : Nat} :
    (frames ++ [last])[i]? = some frame ↔
      frames[i]? = some frame ∨ last = frame ∧ frames.length = i := by
  rw [List.getElem?_append]
  split
  · rename_i hlt
    exact (or_iff_left fun h => absurd h.2 (by omega)).symm
  · rename_i hle
    have hnone : frames[i]? = none := List.getElem?_eq_none (by omega)
    rw [hnone, List.getElem?_singleton]
    grind

theorem keeps_cons {first : Move} {moves : List Move} {frame : Frame} {above : Nat} :
    Keeps (first :: moves) frame above ↔ Keeps moves frame above ∨
      first = .push frame ∧ KeepsEarlier moves ∧ (survivors moves).length = above := by
  constructor
  · rintro ⟨earlier, later, hmoves, hlater⟩
    rcases List.append_eq_cons_iff.mp hmoves.symm with ⟨-, hmoves⟩ | ⟨earlier, -, rfl⟩
    · cases hmoves
      exact .inr ⟨rfl, hlater⟩
    · exact .inl ⟨earlier, later, rfl, hlater⟩
  · rintro (⟨earlier, later, rfl, hlater⟩ | ⟨rfl, hlater⟩)
    · exact ⟨first :: earlier, later, rfl, hlater⟩
    · exact ⟨[], moves, rfl, hlater⟩

/-- A frame among the survivors is kept under those that come before it. -/
theorem getElem?_survivors {moves : List Move} {frame : Frame} {above : Nat} :
    (survivors moves)[above]? = some frame ↔ Keeps moves frame above := by
  induction moves with
  | nil =>
      rw [survivors, List.getElem?_nil]
      refine iff_of_false nofun ?_
      rintro ⟨earlier, later, hmoves, -⟩
      cases earlier <;> cases hmoves
  | cons first moves ih =>
      rw [keeps_cons, ← ih]
      cases first with
      | push newest =>
          rw [survivors, Move.push.injEq]
          split
          · rename_i hkeeps
            rw [getElem?_concat, and_iff_right hkeeps]
          · rename_i hkeeps
            simp only [List.append_nil, hkeeps, false_and, and_false, or_false]
      | pop => simp only [survivors, reduceCtorEq, false_and, or_false]

/-- What is found at a depth after a history: a frame that it keeps under the frames nearer to the
top, or too few frames. -/
structure Selects (history : List Move) (above : Nat)
    (outcome : Except Failure (Option Frame)) : Prop where
  frame : ∀ frame, outcome = .ok (some frame) ↔ Keeps history frame above
  missing : outcome = .error (.contextDepth (above + 2) (survivors history).length) ↔
    (survivors history).length ≤ above
  nothingElse : (∃ frame, outcome = .ok (some frame)) ∨
    outcome = .error (.contextDepth (above + 2) (survivors history).length)

theorem frameAt_add_two (s : CallStack) (above : Nat) :
    s.frameAt (above + 2) = match s.frames[above]? with
      | some frame => .ok (some frame)
      | none => .error (.contextDepth (above + 2) s.frames.length) := by
  rw [frameAt, firstDepth, if_neg (by omega), Nat.add_sub_cancel]
  rfl

theorem selects_frameAt (history : List Move) (above : Nat) :
    Selects history above ((after history).frameAt (above + 2)) := by
  rw [frameAt_add_two, frames_after]
  cases hframe : (survivors history)[above]? with
  | none =>
      have hlength := List.getElem?_eq_none_iff.mp hframe
      refine ⟨fun frame => ?_, iff_of_true rfl hlength, .inr rfl⟩
      rw [← getElem?_survivors, hframe]
      exact iff_of_false nofun nofun
  | some found =>
      obtain ⟨hlength, -⟩ := List.getElem?_eq_some_iff.mp hframe
      refine ⟨fun frame => ?_, iff_of_false nofun (Nat.not_le.mpr hlength), .inl ⟨found, rfl⟩⟩
      rw [← getElem?_survivors, hframe, Except.ok.injEq]

end Formula.CallStack
