import Mathlib.Data.List.Basic
import PursuitForest.Dataset.Bootstrap
import PursuitForest.Proofs.Dataset.RowImages
/-!
Observations of one layout.

Grouped observations have the same layout when they have the same width and the same classes, with
as many rows in each (`SameLayout`). A stratified draw depends on nothing else: it draws the same
places and leaves the same generator behind (`BootstrapDraw.stratified_eq`). The sample is then decided
by the rows at these places (`BootstrapDraw.sampleData_congr`); all other rows may differ.
-/

namespace PursuitForest
namespace GroupedDataset

variable {F L : Type} [Label L]

/-- The same width and classes, and as many rows in every class. -/
structure SameLayout (d e : GroupedDataset F L) : Prop where
  width_eq : d.width = e.width
  classes_eq : d.classes = e.classes
  sizes_eq : d.groups.map (fun g => (g.label, g.rows.length)) =
    e.groups.map fun g => (g.label, g.rows.length)

/-! ### Sorted observations -/

/-- Sorted observations have the layout that their labels give them. -/
theorem sameLayout_ofDataset {d e : Dataset F L} (hw : d.width = e.width)
    (hlabels : d.labels = e.labels) (hc : d.classes = e.classes) :
    SameLayout (ofDataset d) (ofDataset e) where
  width_eq := hw
  classes_eq := hc
  sizes_eq := by
    have hsize : ∀ (o : Dataset F L) (label : L),
        (groupOf o label).rows.length = o.labels.count label := fun o label => by
      rw [groupOf, List.length_map, ← List.countP_eq_length_filter, Dataset.labels, List.count,
        List.countP_map]
      exact List.countP_congr fun r _ => by simp
    have hgroups : ∀ o : Dataset F L, (ofDataset o).groups.map (fun g => (g.label, g.rows.length)) =
        (LabelSet.ofList o.labels).toList.map fun label => (label, o.labels.count label) := fun o => by
      show (o.presentClasses.toList.map (groupOf o)).map _ = _
      rw [List.map_map]
      exact List.map_congr_left fun label _ => Prod.ext rfl (hsize o label)
    rw [hgroups, hgroups, hlabels]

/-- Every row stands next to its label. -/
theorem rows_toDataset (d : GroupedDataset F L) :
    d.toDataset.rows = List.zipWith Observation.mk d.rows d.labels := by
  have hzip := zipWith_flatMap_labels id d.groups
  have hself : d.groups.map (·.mapRows id) = d.groups :=
    (List.map_congr_left fun g _ => by rw [ClassGroup.mapRows, List.map_id, id]).trans (List.map_id _)
  rw [hself, List.map_id] at hzip
  exact hzip.symm

namespace SameLayout

variable {d e : GroupedDataset F L}

theorem labels_eq (h : SameLayout d e) : d.labels = e.labels := by
  have hlabels : ∀ o : GroupedDataset F L, o.labels =
      (o.groups.map fun g => (g.label, g.rows.length)).flatMap fun p => List.replicate p.2 p.1 :=
    fun o => by simp [labels, List.flatMap_map, List.map_const']
  rw [hlabels, hlabels, h.sizes_eq]

theorem size_eq (h : SameLayout d e) : d.size = e.size := by
  have hsize : ∀ o : GroupedDataset F L, o.size = o.labels.length := fun o => by
    simp [size, rows, labels, List.length_flatMap]
  rw [hsize, hsize, h.labels_eq]

/-- Where the rows agree, the labelled rows do. -/
theorem getElem?_toDataset_eq (h : SameLayout d e) {i : Nat} (hi : d.rows[i]? = e.rows[i]?) :
    d.toDataset.rows[i]? = e.toDataset.rows[i]? := by
  rw [rows_toDataset, rows_toDataset, List.getElem?_zipWith, List.getElem?_zipWith, hi, h.labels_eq]

end SameLayout
end GroupedDataset

/-! ### Draws -/

namespace BootstrapDraw

open GroupedDataset

variable {F L G : Type} [Label L] [RandomSource G] {d e : GroupedDataset F L}

omit [Label L] in
/-- Places are drawn by the sizes of the classes. -/
theorem drawBlocks_congr {L' : Type} : ∀ {cs : List (ClassGroup F L)} {ds : List (ClassGroup F L')}
    (start : Nat) (g : G), cs.map (·.rows.length) = ds.map (·.rows.length) →
      drawBlocks start cs g = drawBlocks start ds g
  | [], [], _, _, _ => rfl
  | [], _ :: _, _, _, h => by simp at h
  | _ :: _, [], _, _, h => by simp at h
  | c :: cs, k :: ds, start, g, h => by
      simp only [List.map_cons, List.cons.injEq] at h
      rw [drawBlocks, drawBlocks, h.1]
      dsimp only
      rw [drawBlocks_congr _ _ h.2]

/-- Data of one layout are drawn from at the same places. -/
theorem stratified_eq (h : SameLayout d e) (g : G) :
    (stratified d g).1.sample = (stratified e g).1.sample ∧ (stratified d g).2 = (stratified e g).2 := by
  have hsizes : d.groups.map (·.rows.length) = e.groups.map (·.rows.length) := by
    have hsnd := congrArg (List.map Prod.snd) h.sizes_eq
    rwa [List.map_map, List.map_map] at hsnd
  have hdrawn : drawBlocks 0 d.groups g = drawBlocks 0 e.groups g := drawBlocks_congr 0 g hsizes
  exact ⟨congrArg (·.1) hdrawn, congrArg (·.2) hdrawn⟩

/-- What was not drawn is known from what was. -/
theorem outOfBag_congr {b b' : BootstrapDraw F L} (hsize : b.full.size = b'.full.size)
    (hsample : b.sample = b'.sample) : b.outOfBag = b'.outOfBag := by
  rw [outOfBag, outOfBag, hsize, hsample]

/-- A sample is made of the rows at the drawn places. -/
theorem sampleData_congr {b b' : BootstrapDraw F L} (h : SameLayout b.full b'.full)
    (hsample : b.sample = b'.sample) (hrows : ∀ i ∈ b.sample, b.full.rows[i]? = b'.full.rows[i]?) :
    b.sampleData = b'.sampleData := by
  have hgather : b.full.toDataset.gather b.sample = b'.full.toDataset.gather b'.sample := by
    refine Dataset.ext h.width_eq ?_ h.classes_eq
    show b.sample.filterMap (b.full.toDataset.rows.toArray[·]?) =
      b'.sample.filterMap (b'.full.toDataset.rows.toArray[·]?)
    rw [← hsample]
    refine List.filterMap_congr fun i hi => ?_
    simpa using h.getElem?_toDataset_eq (hrows i hi)
  rw [sampleData, sampleData, hgather]

end BootstrapDraw
end PursuitForest
