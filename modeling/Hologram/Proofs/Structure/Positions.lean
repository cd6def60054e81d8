import Hologram.Proofs.Structure.Stability
import Hologram.Proofs.Structure.Usage

/-! Slots keep their places. Whatever is done to a palette, the number that a slot was added under
stands for its block until that block is taken, and from then on for nothing. -/
namespace Hologram

namespace Palette

/-- What can be done to a palette: a slot is added at the end, with or without a block, or the block
of some slot is taken, whether or not it has one. -/
inductive Change where
  | append (slot : Option Block)
  | take (slot : Nat)

/-- What a change gives back: the number of the slot that it added, or the block that it took. -/
inductive Answer where
  | number (slot : Nat)
  | block (block? : Option Block)

def Answer.isBlock : Answer → Bool
  | number _ => false
  | block block? => block?.isSome

namespace Change

def run (p : Palette) : Change → Answer × Palette
  | append slot => (p.append slot).map .number id
  | take slot => (p.take slot).map .block id

def slot (p : Palette) : Change → Nat
  | append _ => p.size
  | take slot => slot

def addsSlot : Change → Bool
  | append _ => true
  | take _ => false

def addsBlock : Change → Bool
  | append slot => slot.isSome
  | take _ => false

variable (p : Palette) (change : Change)

theorem size_run : (change.run p).2.size = p.size + if change.addsSlot then 1 else 0 := by
  cases change with
  | append slot => exact size_push p slot
  | take slot => exact size_bury p slot

theorem size_le_size_run : p.size ≤ (change.run p).2.size := by
  rw [size_run]
  exact Nat.le_add_right _ _

variable {p change}

theorem block?_run {number : Nat} (h : number ≠ change.slot p) :
    (change.run p).2.block? number = p.block? number := by
  cases change with
  | append slot => exact (block?_push p slot number).trans (if_neg h)
  | take slot => exact (block?_bury p slot number).trans (if_neg h)

/-- A change leaves all references alone but those to the slot that it is about. -/
theorem get?_run {reference : Int} (h : reference ≠ change.slot p) :
    (change.run p).2.get? reference = p.get? reference := by
  unfold get?
  split_ifs with hneg
  · rfl
  · exact block?_run (by omega)

end Change

theorem liveCount_push (p : Palette) (slot : Option Block) :
    (p.push slot).liveCount = p.liveCount + if slot.isSome then 1 else 0 := by
  simp [liveCount, push, List.countP_append, List.countP_singleton]

/-- A slot dies only if it had a block. -/
theorem liveCount_bury (p : Palette) (slot : Nat) :
    (p.bury slot).liveCount + (if (p.block? slot).isSome then 1 else 0) = p.liveCount := by
  unfold liveCount bury block?
  rw [Array.toList_setIfInBounds, ← Array.getElem?_toList]
  by_cases hslot : slot < p.slots.toList.length
  · have hpos : p.slots.toList[slot].isSome → 0 < p.slots.toList.countP Option.isSome :=
      fun hlive => List.countP_pos_iff.mpr ⟨_, List.getElem_mem hslot, hlive⟩
    rw [List.countP_set hslot, List.getElem?_eq_getElem hslot, Option.join_some,
      Option.isSome_none, if_neg Bool.false_ne_true]
    split_ifs with hlive
    · -- the count goes down from a number that is not zero
      have := hpos hlive
      omega
    · omega
  · rw [List.set_eq_of_length_le (Nat.not_lt.mp hslot),
      List.getElem?_eq_none (Nat.not_lt.mp hslot)]
    rfl

theorem liveCount_run (p : Palette) (change : Change) :
    (change.run p).2.liveCount + (if (change.run p).1.isBlock then 1 else 0) =
      p.liveCount + if change.addsBlock then 1 else 0 := by
  cases change with
  | append slot => exact liveCount_push p slot
  | take slot => exact liveCount_bury p slot

def after (p : Palette) (changes : List Change) : Palette :=
  changes.foldl (fun q change => (change.run q).2) p

/-- What the changes give back, each made to the palette that those before it left. -/
def answers (p : Palette) : List Change → List Answer
  | [] => []
  | change :: rest => (change.run p).1 :: answers (change.run p).2 rest

theorem after_append (p : Palette) (first rest : List Change) :
    p.after (first ++ rest) = (p.after first).after rest :=
  List.foldl_append

@[simp] theorem after_cons (p : Palette) (change : Change) (rest : List Change) :
    p.after (change :: rest) = (change.run p).2.after rest := rfl

theorem size_after (p : Palette) (changes : List Change) :
    (p.after changes).size = p.size + changes.countP Change.addsSlot := by
  induction changes generalizing p with
  | nil => rfl
  | cons change rest ih =>
    rw [after_cons, ih, Change.size_run, List.countP_cons]
    omega

theorem liveCount_after (p : Palette) (changes : List Change) :
    (p.after changes).liveCount + (p.answers changes).countP Answer.isBlock =
      p.liveCount + changes.countP Change.addsBlock := by
  induction changes generalizing p with
  | nil => rfl
  | cons change rest ih =>
    have hfirst := liveCount_run p change
    have hrest := ih (change.run p).2
    rw [after_cons, answers, List.countP_cons, List.countP_cons]
    omega

theorem block?_after_of_notMem {p : Palette} {changes : List Change} {slot : Nat}
    (hslot : slot < p.size) (h : .take slot ∉ changes) :
    (p.after changes).block? slot = p.block? slot := by
  induction changes generalizing p with
  | nil => rfl
  | cons change rest ih =>
    rw [List.mem_cons, not_or] at h
    have hother : slot ≠ change.slot p := by
      cases change with
      | append added => exact Nat.ne_of_lt hslot
      | take taken => exact fun heq => h.1 (congrArg Change.take heq)
    rw [after_cons, ih (Nat.lt_of_lt_of_le hslot (change.size_le_size_run p)) h.2,
      Change.block?_run hother]

/-- No later change brings back a block that was taken. -/
theorem block?_after_of_mem {p : Palette} {changes : List Change} {slot : Nat}
    (hslot : slot < p.size) (h : .take slot ∈ changes) : (p.after changes).block? slot = none := by
  induction changes generalizing p with
  | nil => contradiction
  | cons change rest ih =>
    have hnext := Nat.lt_of_lt_of_le hslot (change.size_le_size_run p)
    rw [after_cons]
    by_cases hrest : .take slot ∈ rest
    · exact ih hnext hrest
    · -- taken for the last time, the slot is one of those that the rest leaves alone
      rw [block?_after_of_notMem hnext hrest, ← (List.mem_cons.mp h).resolve_right hrest]
      exact (block?_bury p slot slot).trans (if_pos rfl)

/-- What later changes leave of a slot: its block, or nothing if they took it. -/
structure HoldsUntilTaken (p : Palette) (slot : Nat) (block? : Option Block)
    (later : List Change) : Prop where
  held : .take slot ∉ later → p.get? slot = block?
  gone : .take slot ∈ later → p.get? slot = none

theorem holdsUntilTaken_after {p : Palette} {slot : Nat} (h : slot < p.size)
    (changes : List Change) :
    (p.after changes).HoldsUntilTaken slot (p.block? slot) changes where
  held hnot := (get?_natCast _ slot).trans (block?_after_of_notMem h hnot)
  gone hmem := (get?_natCast _ slot).trans (block?_after_of_mem h hmem)

theorem getElem?_answers (p : Palette) (changes : List Change) (k : Nat) :
    (p.answers changes)[k]? =
      changes[k]?.map fun change => (change.run (p.after (changes.take k))).1 := by
  induction changes generalizing p k with
  | nil => rfl
  | cons change rest ih =>
    cases k with
    | zero => rfl
    | succ k => exact ih (change.run p).2 k

theorem after_take_succ (p : Palette) {changes : List Change} {k : Nat} {change : Change}
    (h : changes[k]? = some change) :
    p.after (changes.take (k + 1)) = (change.run (p.after (changes.take k))).2 := by
  rw [List.take_add_one, h]
  exact after_append p (changes.take k) [change]

/-- The number that a slot is added under stands for its block until that block is taken. -/
theorem holdsUntilTaken_of_append (p : Palette) {changes : List Change} {k : Nat}
    {added : Option Block} (h : changes[k]? = some (.append added)) :
    (p.after changes).HoldsUntilTaken (p.after (changes.take k)).size added
      (changes.drop (k + 1)) := by
  have hsize : (p.after (changes.take k)).size < ((p.after (changes.take k)).push added).size := by
    rw [size_push]
    exact Nat.lt_succ_self _
  have hblock : ((p.after (changes.take k)).push added).block? (p.after (changes.take k)).size =
      added := (block?_push _ added _).trans (if_pos rfl)
  have hheld := holdsUntilTaken_after hsize (changes.drop (k + 1))
  rw [hblock] at hheld
  have hcut : p.after changes =
      (p.after (changes.take (k + 1))).after (changes.drop (k + 1)) := by
    rw [← after_append, List.take_append_drop]
  rw [hcut, p.after_take_succ h]
  exact hheld

/-- Blocks that are added one by one stand behind the slots that were there, in their order. -/
theorem after_map_append (p : Palette) (blocks : List Block) :
    p.after (blocks.map fun block => .append (some block)) =
      ⟨p.slots ++ (blocks.map some).toArray⟩ := by
  induction blocks generalizing p with
  | nil => simp [after]
  | cons block rest ih =>
    rw [List.map_cons, after_cons, ih]
    simp [Change.run, append, push]

theorem liveCount_ofBlocks (blocks : List Block) :
    (ofBlocks blocks).liveCount = blocks.length := by
  simp [liveCount, ofBlocks, List.countP_map, List.countP_eq_length]

/-- Slots keep their numbers through every history of changes, and a history may end anywhere. A
slot of the start and one that is added on the way stand for their block until it is taken, and for
nothing from then on. No change touches another slot than its own. What is taken is what the slot
had, and it is a block exactly when the slot was live. The live slots are as many as the blocks that
were added, those of the start among them, less the blocks that were taken, and they are listed in
ascending order with their blocks. -/
theorem slots_after (blocks : List Block) (changes : List Change) :
    let start := ofBlocks blocks
    let p := start.after changes
    start = ({} : Palette).after (blocks.map fun block => .append (some block)) ∧
      p.size = blocks.length + changes.countP Change.addsSlot ∧
      (∀ slot < blocks.length, p.HoldsUntilTaken slot blocks[slot]? changes) ∧
      (∀ k added, changes[k]? = some (.append added) → ∃ slot : Nat,
        (start.answers changes)[k]? = some (.number slot) ∧
        slot = (start.after (changes.take k)).size ∧
        p.HoldsUntilTaken slot added (changes.drop (k + 1))) ∧
      (∀ k (slot : Nat), changes[k]? = some (.take slot) → ∃ block?,
        (start.answers changes)[k]? = some (.block block?) ∧
        block? = (start.after (changes.take k)).get? slot ∧
        block?.isSome = (start.after (changes.take k)).isLive slot) ∧
      (∀ k change, changes[k]? = some change → ∀ reference : Int,
        reference ≠ change.slot (start.after (changes.take k)) →
        (start.after (changes.take (k + 1))).get? reference =
          (start.after (changes.take k)).get? reference) ∧
      p.liveCount + (start.answers changes).countP Answer.isBlock =
        blocks.length + changes.countP Change.addsBlock ∧
      (p.live.map Prod.fst).Pairwise (· < ·) ∧
      (∀ slot : Nat, slot ∈ p.live.map Prod.fst ↔ p.isLive slot = true) ∧
      ∀ (slot : Nat) (block : Block), (slot, block) ∈ p.live ↔ p.get? slot = some block := by
  intro start p
  refine ⟨?_, ?_, fun slot hslot => ?_, fun k added hadded => ?_, fun k slot htaken => ?_,
    fun k change hchange reference hother => ?_, ?_, ascending_live p, fun _ => mem_map_fst_live,
    fun slot block => ?_⟩
  · rw [after_map_append]
    exact congrArg Palette.mk (Array.empty_append).symm
  · rw [← size_ofBlocks blocks]
    exact size_after start changes
  · have hin : slot < start.size := by rwa [size_ofBlocks]
    rw [← block?_ofBlocks]
    exact holdsUntilTaken_after hin changes
  · refine ⟨_, ?_, rfl, start.holdsUntilTaken_of_append hadded⟩
    rw [getElem?_answers, hadded]
    rfl
  · refine ⟨_, ?_, rfl, rfl⟩
    rw [getElem?_answers, htaken, get?_natCast]
    rfl
  · rw [start.after_take_succ hchange]
    exact Change.get?_run hother
  · rw [← liveCount_ofBlocks blocks]
    exact liveCount_after start changes
  · rw [get?_natCast]
    exact mem_live

/-- The slot of a bell, which is taken before it is there, while it has its block and once more. -/
theorem slots_after_bell :
    let bell : Block := ⟨"bell", [], none⟩
    let blocks : List Block := [⟨"stone", [], none⟩, ⟨"air", [], none⟩]
    let changes : List Change :=
      [.take 2, .append (some bell), .take 1, .take 2, .append none, .take 2]
    let start := ofBlocks blocks
    let p := start.after changes
    (0 < blocks.length ∧ .take 0 ∉ changes ∧ p.get? 0 = blocks[0]?) ∧
      (1 < blocks.length ∧ .take 1 ∈ changes ∧ p.get? 1 = none) ∧
      (changes[1]? = some (.append (some bell)) ∧
        ∃ slot : Nat, (start.answers changes)[1]? = some (.number slot) ∧
          .take slot ∈ changes.drop 2 ∧ p.get? slot = none) ∧
      (changes[3]? = some (.take 2) ∧ (start.answers changes)[3]? = some (.block (some bell))) ∧
      changes[5]? = some (.take 2) ∧ (start.answers changes)[5]? = some (.block none) ∧
      (1 : Int) ≠ Change.slot (start.after (changes.take 5)) (.take 2) ∧
      p.get? 1 = (start.after (changes.take 5)).get? 1 := by
  intro bell blocks changes start p
  obtain ⟨-, -, hstart, hadded, htaken, hframe, -⟩ := slots_after blocks changes
  have hkept : .take 0 ∉ changes := by simp [changes]
  have hair : .take 1 ∈ changes := by simp [changes]
  obtain ⟨slot, hanswer, hslot, hholds⟩ := hadded 1 (some bell) rfl
  have hdead : .take slot ∈ changes.drop 2 := by
    rw [hslot]
    exact .tail _ (.head _)
  obtain ⟨first, hfirst, hbell, -⟩ := htaken 3 2 rfl
  obtain ⟨second, hsecond, hnone, -⟩ := htaken 5 2 rfl
  have hone : (1 : Int) ≠ Change.slot (start.after (changes.take 5)) (.take 2) := by decide
  exact ⟨⟨by decide, hkept, (hstart 0 (by decide)).held hkept⟩,
    ⟨by decide, hair, (hstart 1 (by decide)).gone hair⟩,
    ⟨rfl, slot, hanswer, hdead, hholds.gone hdead⟩, ⟨rfl, hfirst.trans (by rw [hbell]; rfl)⟩, rfl,
    hsecond.trans (by rw [hnone]; rfl), hone, hframe 5 (.take 2) rfl 1 hone⟩

end Palette
end Hologram
