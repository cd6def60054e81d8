import Hologram.Pack.BoundingBox
import Hologram.Proofs.Dictionary
import Hologram.Proofs.Number.Digits
import Hologram.Proofs.Number.Missing
import Hologram.Proofs.Pack.Controller
import Hologram.Proofs.Script.Assignments

/-! The procedures of the edges of a bounding box, in which the extents are placeholders. They are
compiled for all extents, and to the code that describes the edges. -/
namespace Hologram.BoundingBox

open Script

/-- The procedures of the edges, in which the extents have the name `size`. -/
def outlines : List String :=
  ["v.size = $[size[0]/2]; v.dir = 0; v.r = 1; v.g = 0; v.b = 0;",
    "v.size = $[size[1]/2]; v.dir = 1; v.r = 1 / 255; v.g = 1; v.b = 0;",
    "v.size = $[size[2]/2]; v.dir = 2; v.r = 0; v.g = 162 / 255; v.b = 1;",
    "v.size = $[size[0]/2]; v.dir = 0; v.y = $[size[1]]; v.r = 1; v.g = 1; v.b = 1;",
    "v.size = $[size[0]/2]; v.dir = 0; v.z = $[size[2]]; v.r = 1; v.g = 1; v.b = 1;",
    "v.size = $[size[0]/2]; v.dir = 0; v.y = $[size[1]]; v.z = $[size[2]]; v.r = 1; v.g = 1; v.b = 1;",
    "v.size = $[size[1]/2]; v.dir = 1; v.x = $[size[0]]; v.r = 1; v.g = 1; v.b = 1;",
    "v.size = $[size[1]/2]; v.dir = 1; v.z = $[size[2]]; v.r = 1; v.g = 1; v.b = 1;",
    "v.size = $[size[1]/2]; v.dir = 1; v.x = $[size[0]]; v.z = $[size[2]]; v.r = 1; v.g = 1; v.b = 1;",
    "v.size = $[size[2]/2]; v.dir = 2; v.x = $[size[0]]; v.r = 1; v.g = 1; v.b = 1;",
    "v.size = $[size[2]/2]; v.dir = 2; v.y = $[size[1]]; v.r = 1; v.g = 1; v.b = 1;",
    "v.size = $[size[2]/2]; v.dir = 2; v.x = $[size[0]]; v.y = $[size[1]]; v.r = 1; v.g = 1; v.b = 1;"]

/-- The extents as one constant. -/
def sequence (size : Size) : Constant :=
  .sequence (size.extents.map fun (n : Nat) => .int n)

def bindings (size : Size) : Bindings :=
  [("size", sequence size)]

def extentOf (axis : Nat) : Expression :=
  .placeholder ⟨"size", some (.index axis), none⟩

def halfOf (axis : Nat) : Expression :=
  .placeholder ⟨"size", some (.index axis), some (.divide, .int 2)⟩

def Edge.written (edge : Edge) : Assignments :=
  ("v.size", halfOf edge.axis) :: ("v.dir", .int edge.axis) ::
    (edge.shifts.map (fun axis => (coordinate axis, extentOf axis)) ++
      List.zip ["v.r", "v.g", "v.b"] edge.colour)

def Edge.resolved (edge : Edge) (size : Size) : Assignments :=
  ("v.size", half (extent size edge.axis)) :: ("v.dir", .int edge.axis) ::
    (edge.shifts.map (fun axis => (coordinate axis, .int (extent size axis))) ++
      List.zip ["v.r", "v.g", "v.b"] edge.colour)

theorem code_resolved (edge : Edge) (size : Size) : (edge.resolved size).code = edge.code size := by
  simp only [Edge.resolved, Edge.code, Assignments.code, List.map_cons, List.map_append,
    List.map_map, List.zip, List.map_zipWith]
  rfl

theorem tokensOf_outlines :
    outlines.map (fun outline => (tokensOf outline).toOption) =
      edges.map fun edge => some edge.written.tokens := by
  decide +kernel

/-- Every edge is on axes that there are, in a colour of whole or shaded parts. -/
theorem edges_cases {edge : Edge} (h : edge ∈ edges) :
    (edge.axis < 3 ∧ ∀ axis ∈ edge.shifts, axis < 3) ∧
      ∀ e ∈ edge.colour, (∃ n, e = .int n) ∨ ∃ part, e = shade part := by
  constructor
  · revert edge
    decide
  · simp only [edges, axes, whiteEdges, white, List.mem_append, List.mem_flatMap, List.mem_map] at h
    rcases h with h | ⟨_, -, _, -, rfl⟩
    · simp only [List.mem_cons, List.not_mem_nil, or_false] at h
      rcases h with rfl | rfl | rfl <;> simp
    · simp

theorem ungrouped_shade (part : Int) : (shade part).Ungrouped := by
  have hparts : Derives (.binary 1) ([.int part] ++ .operator .divide :: [.int 255]) (shade part) :=
    .operator (by decide) (.operand (.unary (.postfixed (.int part))))
      (.operand (.unary (.postfixed (.int 255))))
  exact .condition hparts

theorem ungrouped_written {edge : Edge} (h : edge ∈ edges) :
    ∀ entry ∈ edge.written, entry.2.Ungrouped := by
  have hname : Parser.placeholderName "size" = ("size", none) := by decide +kernel
  simp only [Edge.written, List.forall_mem_cons, List.forall_mem_append, List.forall_mem_map]
  refine ⟨Expression.ungrouped_placeholder hname (.index _) (.int rfl 2),
    Expression.ungrouped_int _,
    fun axis _ => Expression.ungrouped_placeholder hname (.index _) .missing,
    fun entry hentry => ?_⟩
  rcases (edges_cases h).2 entry.2 (List.of_mem_zip hentry).2 with ⟨n, hn⟩ | ⟨part, hpart⟩
  · rw [hn]
    exact Expression.ungrouped_int n
  · rw [hpart]
    exact ungrouped_shade part

section

variable {size : Size} {axis : Nat}

theorem base?_size (size : Size) :
    Placeholder.base? (bindings size) [] "size" = some (sequence size) := rfl

theorem access_sequence (h : axis < 3) :
    Placeholder.access (bindings size) [] "size" (sequence size) (.index axis) =
      .ok (.int (extent size axis)) := by
  have hitem : (size.extents.map fun (n : Nat) => Constant.int n)[axis]? =
      some (.int (extent size axis)) := by
    have hlength : axis < size.extents.length := h
    rw [List.getElem?_map, extent, List.getElem?_eq_getElem hlength]
    rfl
  unfold Placeholder.access Constant.item sequence
  dsimp only
  rw [if_pos (Int.natCast_nonneg axis), Int.toNat_natCast, hitem]

theorem resolve_extentOf (h : axis < 3) :
    (extentOf axis).resolve (bindings size) [] = .ok (.int (extent size axis)) := by
  rw [extentOf, Expression.resolve, Placeholder.resolve]
  simp only [base?_size, ok_bind, access_sequence h]
  rfl

theorem unpack_two : (2.0 : Float).toModel.unpack =
    .finite .positive (2 ^ 52) (-51) (by decide) := by
  rfl

/-- Half of an integer is a number. -/
theorem isNaN_half (n : Int) : (Float.ofInt n / 2.0).isNaN = false := by
  have hnumber := Number.isNaN_ofInt n
  refine Number.isNaN_unpack_pack ?_
  rw [unpack_two]
  exact Number.isNaN_div _ hnumber _ _ _ _

/-- Half of an extent is an integer when it is even, and else a double. -/
theorem adjust_half {n : Nat} (hn : n < 2 ^ 32) :
    (Constant.int n).adjust "size" .divide (.int 2) = .ok (half n) := by
  have hremainder : (n : Int).tmod 2 = ((n % 2 : Nat) : Int) := rfl
  have hquotient : (n : Int).tdiv 2 = ((n / 2 : Nat) : Int) := rfl
  unfold Constant.adjust half
  by_cases heven : n % 2 = 0
  · have hgreatest : (2 ^ 32 : Int) ≤ Number.Width.bits64.greatest := by decide
    have hleast : Number.Width.bits64.least ≤ 0 := by decide
    have hholds : Number.Width.bits64.holds ((n / 2 : Nat) : Int) = true := by
      rw [Number.Width.holds_iff]
      omega
    have hwhole : Constant.adjustedInt? .divide n 2 = some ((n / 2 : Nat) : Int) := by
      unfold Constant.adjustedInt?
      dsimp only
      rw [hremainder, hquotient, heven, if_pos (by decide), if_pos hholds]
    simp only [hwhole, if_pos heven]
  · have hwhole : Constant.adjustedInt? .divide n 2 = none := by
      unfold Constant.adjustedInt?
      dsimp only
      rw [hremainder, if_neg (by omega)]
    have htwo : Float.ofInt 2 = 2.0 := by decide +kernel
    have hfolded : Constant.folded (.int n) (.int 2) (Float.ofInt n / 2.0) =
        .float (Float.ofInt n / 2.0) := by
      rw [Constant.folded, isNaN_half, if_neg (by decide)]
    simp only [hwhole, if_neg heven, Constant.toFloat?, Constant.adjustedFloat?,
      Option.bind_eq_bind, Option.bind_some, htwo, hfolded]
    rfl

theorem resolve_halfOf (h : axis < 3) (hn : extent size axis < 2 ^ 32) :
    (halfOf axis).resolve (bindings size) [] = .ok (half (extent size axis)) := by
  rw [halfOf, Expression.resolve, Placeholder.resolve]
  simp only [base?_size, ok_bind, access_sequence h, Constant.isScalar, if_true]
  exact adjust_half hn

end

section

variable {size : Size} {edge : Edge}

theorem extent_lt (hsize : ∀ n ∈ size.extents, n < 2 ^ 32) (axis : Nat) :
    extent size axis < 2 ^ 32 := by
  unfold extent
  cases h : size.extents[axis]? with
  | none => simp
  | some n => exact hsize n (List.mem_of_getElem? h)

/-- Every value of an edge is resolved for the extents. -/
theorem forall₂_resolved (h : edge ∈ edges) (hsize : ∀ n ∈ size.extents, n < 2 ^ 32) :
    List.Forall₂ (fun written resolved => resolved.1 = written.1 ∧
      written.2.resolve (bindings size) [] = .ok resolved.2) edge.written (edge.resolved size) := by
  obtain ⟨⟨haxis, hshifts⟩, hcolour⟩ := edges_cases h
  refine .cons ⟨rfl, resolve_halfOf haxis (extent_lt hsize _)⟩ (.cons ⟨rfl, rfl⟩
    (List.rel_append ?_ (List.forall₂_same.mpr fun entry hentry => ⟨rfl, ?_⟩)))
  · rw [List.forall₂_map_left_iff, List.forall₂_map_right_iff, List.forall₂_same]
    exact fun axis haxis => ⟨rfl, resolve_extentOf (hshifts axis haxis)⟩
  · rcases hcolour entry.2 (List.of_mem_zip hentry).2 with ⟨n, hn⟩ | ⟨part, hpart⟩
    · rw [hn]
      rfl
    · rw [hpart]
      rfl

/-- The procedure of an edge is compiled to the script of its effect. -/
theorem compile_of_tokensOf (h : edge ∈ edges) (hsize : ∀ n ∈ size.extents, n < 2 ^ 32)
    {outline : String} (htokens : tokensOf outline = .ok edge.written.tokens) :
    compile outline (bindings size) = .ok (edge.effect size).script := by
  rw [Assignments.compile_of_tokens htokens (ungrouped_written h) (forall₂_resolved h hsize),
    code_resolved]
  rfl

/-- The procedures are compiled to the scripts of the twelve effects, for all extents. -/
theorem mapM_compile_outlines (hsize : ∀ n ∈ size.extents, n < 2 ^ 32) :
    outlines.mapM (compile · (bindings size)) =
      .ok ((edges.map (Edge.effect size)).map (·.script)) := by
  have htokens : List.Forall₂ (fun (edge : Edge) outline =>
      (tokensOf outline).toOption = some edge.written.tokens) edges outlines := by
    have heq := List.forall₂_eq_eq_eq ▸ tokensOf_outlines
    rw [List.forall₂_map_left_iff, List.forall₂_map_right_iff] at heq
    exact heq.flip
  refine mapM_eq_ok_of_forall₂ ?_
  rw [List.map_map, List.forall₂_map_right_iff]
  exact ((List.forall₂_and_left _ _).mpr ⟨fun _ h => h, htokens⟩).flip.imp
    fun outline edge ⟨hedge, htokens⟩ =>
      compile_of_tokensOf hedge hsize (toOption_eq_some_iff.mp htokens)

end
end Hologram.BoundingBox
