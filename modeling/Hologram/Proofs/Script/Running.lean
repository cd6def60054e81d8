import Hologram.Proofs.Script.CodeEmission
import Hologram.Proofs.Script.Counting
import Hologram.Proofs.Script.Unrolling

/-! Code that was written out and runs, instruction by instruction: how it ends, and what it
leaves. -/
namespace Hologram.Script

namespace Program

theorem run_bind {α β : Type} (x : Run α) (f : α → Run β) (store : Store) :
    (x >>= f).run store =
      match x.run store with
      | (.ok a, middle) => (f a).run middle
      | (.error e, middle) => (.error e, middle) := by
  change (ExceptT.bindCont f (x.run store).1) (x.run store).2 = _
  rcases x.run store with ⟨_ | _, _⟩ <;> rfl

/-- A run goes on from what its first part leaves. -/
theorem run_bind_of_ok {α β : Type} {x : Run α} {f : α → Run β} {a : α} {store middle : Store}
    (h : x.run store = (.ok a, middle)) : (x >>= f).run store = (f a).run middle := by
  rw [run_bind, h]

/-- A run fails where its first part does. -/
theorem run_bind_of_error {α β : Type} {x : Run α} {f : α → Run β} {e : EvalError}
    {store middle : Store} (h : x.run store = (.error e, middle)) :
    (x >>= f).run store = (.error e, middle) := by
  rw [run_bind, h]

theorem run_valueOf {functions : Functions} {store : Store} {e : Expression}
    {outcome : Except EvalError Value} (h : e.evaluate functions store = outcome) :
    (valueOf functions e).run store = (outcome, store) := by
  change (e.evaluate functions store, store) = _
  rw [h]

end Program

namespace Code
open Program

variable {functions : Functions} {store middle later : Store} {outcome : Except EvalError Unit}

/-- Running what the text of code is read as comes to its end and leaves another store. -/
def Leaves (functions : Functions) (code : Code) (store later : Store) : Prop :=
  (runBlock functions code.settled).run store = (.ok .proceeds, later)

/-- Running what the text of code is read as comes to its end or fails, and it leaves another
store. -/
def Ends (functions : Functions) (code : Code) (store : Store) (outcome : Except EvalError Unit)
    (later : Store) : Prop :=
  (runBlock functions code.settled).run store = (outcome.map fun _ => .proceeds, later)

theorem Leaves.ends {code : Code} (h : Leaves functions code store later) :
    Ends functions code store (.ok ()) later :=
  h

theorem Leaves.unique {code : Code} (h : Leaves functions code store middle)
    (h' : Leaves functions code store later) : middle = later :=
  congrArg Prod.snd (h.symm.trans h')

theorem settled_append (first second : Code) :
    settled (first ++ second) = settled first ++ settled second := by
  induction first with
  | nil => rfl
  | cons i rest ih => rw [List.cons_append, settled, settled, ih, List.append_assoc]

theorem leaves_nil (functions : Functions) (store : Store) : Leaves functions [] store store := by
  rw [Leaves, settled, runBlock]
  rfl

theorem Leaves.append_ends {first second : Code} (h : Leaves functions first store middle)
    (h' : Ends functions second middle outcome later) :
    Ends functions (first ++ second) store outcome later := by
  rw [Ends, settled_append, runBlock_append, andThen, run_bind_of_ok h]
  exact h'

theorem Leaves.append {first second : Code} (h : Leaves functions first store middle)
    (h' : Leaves functions second middle later) :
    Leaves functions (first ++ second) store later :=
  h.append_ends h'.ends

theorem Leaves.cons {i : Instruction Expression} {rest : Code}
    (h : Leaves functions [i] store middle) (h' : Leaves functions rest middle later) :
    Leaves functions (i :: rest) store later :=
  h.append h'

theorem ends_singleton {i : Instruction Expression} {j : Instruction String}
    (hi : settledInstruction i = [j])
    (h : (runInstruction functions j).run store = (outcome.map fun _ => .proceeds, later)) :
    Ends functions [i] store outcome later := by
  rw [Ends, settled, settled, hi, List.append_nil, runBlock_cons, runBlock, andThen_proceeds]
  exact h

theorem leaves_assign {x : String} {e : Expression} {value : Value}
    (h : e.settled.evaluate functions store = .ok value) :
    Leaves functions [.assign (.name x) e] store (store.insert x value) := by
  have hrun : (runInstruction functions (.assign x e.settled)).run store =
      (.ok .proceeds, store.insert x value) := by
    rw [runInstruction, run_bind_of_ok (run_valueOf h)]
    rfl
  have hi : settledInstruction (.assign (.name x) e) = [.assign x e.settled] := by
    rw [settledInstruction]
  exact @ends_singleton functions store _ (.ok ()) _ _ hi hrun

section

variable {c : Expression} {satisfied unsatisfied : Code}

/-- A branch with something in it is read as a branch. -/
theorem ends_branch (hblocks : (satisfied.isEmpty && unsatisfied.isEmpty) = false)
    (h : (runInstruction functions
        (.branch c.settled satisfied.settled unsatisfied.settled)).run store =
      (outcome.map fun _ => .proceeds, later)) :
    Ends functions [.branch c satisfied unsatisfied] store outcome later := by
  refine ends_singleton ?_ h
  rw [settledInstruction, hblocks, if_neg Bool.false_ne_true]

/-- A branch fails where its condition does. -/
theorem ends_branch_of_error {e : EvalError}
    (hblocks : (satisfied.isEmpty && unsatisfied.isEmpty) = false)
    (hc : c.settled.evaluate functions store = .error e) :
    Ends functions [.branch c satisfied unsatisfied] store (.error e) store := by
  apply ends_branch hblocks
  rw [runInstruction]
  exact run_bind_of_error (run_valueOf hc)

/-- A branch ends as the block ends that its condition selects. A branch with nothing in it is not
read, and its condition is not asked for. -/
theorem Ends.branch {p : Bool} (hc : c.settled.Decides functions store p)
    (h : Ends functions (if p then satisfied else unsatisfied) store outcome later) :
    Ends functions [.branch c satisfied unsatisfied] store outcome later := by
  cases hblocks : satisfied.isEmpty && unsatisfied.isEmpty with
  | true =>
    rw [Ends, settled, settled, settledInstruction, if_pos hblocks, List.append_nil]
    rw [Bool.and_eq_true, List.isEmpty_iff, List.isEmpty_iff] at hblocks
    obtain ⟨rfl, rfl⟩ := hblocks
    rwa [ite_self] at h
  | false =>
    obtain ⟨value, hvalue, rfl⟩ := hc (Expression.evaluateText functions store)
    apply ends_branch hblocks
    rw [runInstruction, run_bind_of_ok (run_valueOf hvalue)]
    split_ifs with htruthy
    · rwa [if_pos htruthy] at h
    · rwa [if_neg htruthy] at h

/-- A branch leaves what the block leaves that its condition selects. -/
theorem leaves_branch {p : Bool} (hc : c.settled.Decides functions store p)
    (h : Leaves functions (if p then satisfied else unsatisfied) store later) :
    Leaves functions [.branch c satisfied unsatisfied] store later :=
  Ends.branch hc h.ends

end

/-- The text of readable code runs as the code. -/
theorem Ends.executeText {code : Code} (h : Ends functions code store outcome later)
    (hread : code.Readable) :
    Program.executeText functions code.text store = (outcome.map fun _ => none, later) := by
  rw [Program.executeText, ofText_text_of_readable hread]
  change (((runBlock functions code.settled).run store).1.map Flow.value?,
    ((runBlock functions code.settled).run store).2) = _
  rw [h]
  cases outcome <;> rfl

theorem Leaves.executeText {code : Code} (h : Leaves functions code store later)
    (hread : code.Readable) :
    Program.executeText functions code.text store = (.ok none, later) :=
  h.ends.executeText hread

end Code
end Hologram.Script
