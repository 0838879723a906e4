import CurvedMesh.Mesh.Subdivision
import CurvedMesh.Proofs.Edges
import CurvedMesh.Proofs.FirstOccurrence
import Mathlib.Data.Sym.Sym2.Order
import Mathlib.Order.Lattice.Nat

/-!
# Where the vertices of a refined mesh come from

An `Origin` is an old vertex or an unordered pair of old vertices. Labels are equal exactly when
their origins are, so the new vertices are the distinct origins of the labels, in order of first
occurrence, and the number of a label is the `Mesh.rank` of its origin.
-/

namespace CurvedMesh

variable {α : Type} {d : Nat} {s : Shape}

inductive Origin where
  | vertex (index : Nat)
  | edge (ends : Sym2 Nat)
deriving DecidableEq

/-! ## Labels -/

namespace Label

def origin : Label → Origin
  | .vertex i => .vertex i
  | .midpoint a b => .edge s(a, b)

theorem beq_iff_origin_eq (l l' : Label) : (l == l') = true ↔ l.origin = l'.origin := by
  rw [beq_iff_site_eq]
  cases l <;> cases l' <;> simp [site, origin]
  omega

end Label

/-! ## Children of a cell -/

namespace Cell

/-- The children with origins for corners. -/
def parts (c : Cell Nat s) : List (Cell Origin s) :=
  c.split .vertex fun a b => .edge s(a, b)

theorem vertex_mem_parts {c : Cell Nat s} {i : Nat} :
    .vertex i ∈ c.parts.flatMap corners ↔ i ∈ c.corners := by
  cases c <;> simp [parts, split, corners]

theorem edge_mem_parts {c : Cell Nat s} {ends : Sym2 Nat} :
    .edge ends ∈ c.parts.flatMap corners ↔ ends ∈ c.edges := by
  cases c <;> simp [parts, split, corners, edges, sides]
  grind

end Cell

/-! ## Origins of a mesh -/

namespace Mesh

def parts (mesh : Mesh α d s) : List (Cell Origin s) :=
  mesh.cells.flatMap Cell.parts

/-- What the labels of all corners of all children stand for, in the order of the traversal and with
repetitions. -/
def origins (mesh : Mesh α d s) : List Origin :=
  (mesh.children.flatMap Cell.corners).map Label.origin

def rank (mesh : Mesh α d s) (o : Origin) : Nat :=
  mesh.origins.eraseDups.idxOf o

theorem map_children (mesh : Mesh α d s) :
    mesh.children.map (Cell.map Label.origin) = mesh.parts := by
  simp only [children, parts, List.map_flatMap, Cell.map_split]
  rfl

theorem origins_eq (mesh : Mesh α d s) : mesh.origins = mesh.parts.flatMap Cell.corners := by
  simp only [origins, ← map_children, List.map_flatMap, List.flatMap_map, Cell.corners_map]

theorem mem_origins_of_mem_parts {mesh : Mesh α d s} {part : Cell Origin s} {o : Origin}
    (hpart : part ∈ mesh.parts) (ho : o ∈ part.corners) : o ∈ mesh.origins := by
  rw [origins_eq]
  exact List.mem_flatMap.2 ⟨part, hpart, ho⟩

theorem vertex_mem_origins {mesh : Mesh α d s} {i : Nat} :
    .vertex i ∈ mesh.origins ↔ i ∈ mesh.referenced := by
  simp only [origins_eq, parts, mem_referenced, List.flatMap_assoc, List.mem_flatMap]
  refine exists_congr fun c => and_congr_right fun _ => ?_
  rw [← List.mem_flatMap, Cell.vertex_mem_parts]

theorem edge_mem_origins {mesh : Mesh α d s} {ends : Sym2 Nat} :
    .edge ends ∈ mesh.origins ↔ ends ∈ mesh.edges := by
  simp only [origins_eq, parts, mem_edges, List.flatMap_assoc, List.mem_flatMap]
  refine exists_congr fun c => and_congr_right fun _ => ?_
  rw [← List.mem_flatMap, Cell.edge_mem_parts]

theorem toFinset_origins (mesh : Mesh α d s) :
    mesh.origins.toFinset =
      mesh.referenced.image Origin.vertex ∪ mesh.edges.image Origin.edge := by
  ext o
  cases o with
  | vertex i => simp [vertex_mem_origins]
  | edge ends => simp [edge_mem_origins]

theorem card_toFinset_origins (mesh : Mesh α d s) :
    mesh.origins.toFinset.card = mesh.referenced.card + mesh.edges.card := by
  have apart : Disjoint (mesh.referenced.image Origin.vertex) (mesh.edges.image Origin.edge) := by
    simp [Finset.disjoint_left]
  rw [toFinset_origins, Finset.card_union_of_disjoint apart,
    Finset.card_image_of_injective _ fun _ _ h => Origin.vertex.inj h,
    Finset.card_image_of_injective _ fun _ _ h => Origin.edge.inj h]

theorem length_eraseDups_origins (mesh : Mesh α d s) :
    mesh.origins.eraseDups.length = mesh.referenced.card + mesh.edges.card := by
  have same : mesh.origins.eraseDups.toFinset = mesh.origins.toFinset := by
    ext o
    simp only [List.mem_toFinset, List.mem_eraseDups]
  rw [← card_toFinset_origins, ← same, List.toFinset_card_of_nodup (nodup_eraseDups _)]

/-! ## Ranks -/

theorem map_order_numbering (mesh : Mesh α d s) :
    mesh.numbering.order.toList.map Label.origin = mesh.origins.eraseDups := by
  rw [numbering, Numbering.map_order_ofList Label.beq_iff_origin_eq, origins]

theorem number_numbering (mesh : Mesh α d s) (l : Label) :
    mesh.numbering.number l = mesh.rank l.origin := by
  rw [numbering, Numbering.number_ofList Label.beq_iff_origin_eq, rank, origins]

theorem map_number_children (mesh : Mesh α d s) :
    mesh.children.map (Cell.map mesh.numbering.number) = mesh.parts.map (Cell.map mesh.rank) := by
  rw [← map_children, List.map_map]
  refine List.map_congr_left fun c _ => ?_
  rw [Function.comp_apply, Cell.map_map]
  exact Cell.map_congr fun l _ => number_numbering mesh l

theorem rank_inj {mesh : Mesh α d s} {o o' : Origin} (h : o ∈ mesh.origins) :
    mesh.rank o = mesh.rank o' ↔ o = o' :=
  List.idxOf_inj (List.mem_eraseDups.2 h)

theorem rank_lt {mesh : Mesh α d s} {o : Origin} (h : o ∈ mesh.origins) :
    mesh.rank o < mesh.origins.eraseDups.length :=
  List.idxOf_lt_length_of_mem (List.mem_eraseDups.2 h)

theorem exists_rank_eq {mesh : Mesh α d s} {k : Nat} (hk : k < mesh.origins.eraseDups.length) :
    ∃ o ∈ mesh.origins, mesh.rank o = k := by
  refine ⟨mesh.origins.eraseDups[k], List.mem_eraseDups.1 (List.getElem_mem hk), ?_⟩
  exact List.get_idxOf (nodup_eraseDups mesh.origins) ⟨k, hk⟩

theorem getElem?_rank {mesh : Mesh α d s} {o : Origin} (h : o ∈ mesh.origins) :
    mesh.origins.eraseDups[mesh.rank o]? = some o :=
  List.getElem?_idxOf (List.mem_eraseDups.2 h)

end Mesh

/-! ## Placing an origin -/

namespace Origin

theorem inf_mem (ends : Sym2 Nat) : ends.inf ∈ ends := by
  induction ends with | _ a b
  rcases le_total a b with h | h <;> simp [h]

theorem sup_mem (ends : Sym2 Nat) : ends.sup ∈ ends := by
  induction ends with | _ a b
  rcases le_total a b with h | h <;> simp [h]

variable [Scalar α] {m : Manifold α d} {vertices : Array (Point α d)}

def place (m : Manifold α d) (vertices : Array (Point α d)) :
    Origin → Except (Fault α) (Placement α d)
  | .vertex i => return { point := ← Label.vertexAt vertices i }
  | .edge ends => do
    let p ← Label.vertexAt vertices ends.inf
    let q ← Label.vertexAt vertices ends.sup
    m.midpoint p q

theorem place_origin (m : Manifold α d) (vertices : Array (Point α d)) (l : Label) :
    l.origin.place m vertices = l.place m vertices := by
  cases l <;> rfl

theorem place_vertex {i : Nat} {p : Point α d} (h : vertices[i]? = some p) :
    place m vertices (.vertex i) = .ok { point := p } := by
  simp only [place, Label.vertexAt, h]
  rfl

theorem place_edge {ends : Sym2 Nat} {p q : Point α d} (hp : vertices[ends.inf]? = some p)
    (hq : vertices[ends.sup]? = some q) : place m vertices (.edge ends) = m.midpoint p q := by
  simp only [place, Label.vertexAt, hp, hq]
  rfl

theorem place_edge_mk {a b : Nat} {p q : Point α d} {result : Except (Fault α) (Placement α d)}
    (hp : vertices[a]? = some p) (hq : vertices[b]? = some q) (hpq : m.midpoint p q = result)
    (hqp : m.midpoint q p = result) : place m vertices (.edge s(a, b)) = result := by
  rcases le_total a b with h | h
  · rw [← hpq]
    apply place_edge
    · rwa [Sym2.inf_mk, inf_eq_left.2 h]
    · rwa [Sym2.sup_mk, sup_eq_right.2 h]
  · rw [← hqp]
    apply place_edge
    · rwa [Sym2.inf_mk, inf_eq_right.2 h]
    · rwa [Sym2.sup_mk, sup_eq_left.2 h]

end Origin

end CurvedMesh
