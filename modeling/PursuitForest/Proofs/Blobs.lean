import PursuitForest.Blobs
import PursuitForest.Proofs.Forest.Interleaving
import PursuitForest.Proofs.Pursuit.Selections
/-!
Blobs that take turns.

Place `k * size + j` holds point `j` of blob `k` (`Blobs.getElem?_rows`), and turn `i` picks point `i / blobs`
of blob `i % blobs`. Every place has its turn (`Blobs.turns_perm`), and those of one blob come in ascending
order (`Blobs.filter_turns`). So rows and labels in turns interleave with the rows and labels that are drawn
one blob after another (`Dataset.exists_ofParts_gather`), and both sort to the same.
-/

namespace PursuitForest

/-! ### Rows in another order -/

namespace Dataset

variable {F L : Type} [Label L]

/-- As many rows as labels are paired, and the classes are the labels. -/
theorem exists_ofParts {x : FeatureTable F} {y : List L} (h : x.size = y.length) :
    ∃ d, ofParts x y = .ok d ∧ d.width = x.width ∧ d.rows = List.zipWith Observation.mk x.rows y ∧
      d.classes = LabelSet.ofList y := by
  obtain ⟨d, hd, hwidth, hrows⟩ := withClasses_eq_ok h fun _ => LabelSet.mem_ofList.2
  refine ⟨d, hd, hwidth, hrows, ?_⟩
  unfold withClasses at hd
  rw [if_neg (not_not_intro h)] at hd
  split at hd
  · cases hd
  · cases hd
    rfl

omit [Label L] in
theorem zipWith_features_label (rows : List (Observation F L)) :
    List.zipWith Observation.mk (rows.map (·.features)) (rows.map (·.label)) = rows := by
  rw [List.zipWith_map, List.zipWith_self]
  exact List.map_id _

/-- Of the gathered rows those of one class are at the places of its label. -/
theorem filter_gather (d : Dataset F L) (order : List Nat) (label : L) :
    (d.gather order).rows.filter (·.label = label) =
      (order.filter (d.labels[·]? = some label)).filterMap (d.rows[·]?) := by
  rw [rows_gather, List.filter_filterMap, List.filterMap_filter]
  refine List.filterMap_congr fun i _ => ?_
  rw [labels, List.getElem?_map]
  cases d.rows[i]? with
  | none => rfl
  | some o => simp [Option.filter]

/-- Rows that are gathered in another order interleave with the rows if the places of each label keep their
order. -/
theorem exists_ofParts_gather {x : FeatureTable F} {y : List L} {order : List Nat}
    (hsize : x.size = y.length)
    (horder : ∀ label, order.filter (y[·]? = some label) =
      (List.range y.length).filter (y[·]? = some label)) :
    ∃ d e, ofParts (x.gather order) (order.filterMap (y[·]?)) = .ok d ∧ ofParts x y = .ok e ∧
      d.width = e.width ∧ d.Interleaves e := by
  obtain ⟨e, he, hewidth, herows, heclasses⟩ := exists_ofParts hsize
  obtain ⟨hfeatures, hlabels⟩ := map_zipWith_mk hsize
  rw [← herows] at hfeatures hlabels
  have hx : (e.gather order).rows.map (·.features) = (x.gather order).rows := by
    rw [rows_gather, FeatureTable.rows_gather, ← hfeatures, List.map_filterMap]
    simp only [List.getElem?_map]
  have hy : (e.gather order).rows.map (·.label) = order.filterMap (y[·]?) := by
    rw [rows_gather, ← hlabels, List.map_filterMap]
    simp only [List.getElem?_map]
  have hgathered : (x.gather order).size = (order.filterMap (y[·]?)).length := by
    rw [FeatureTable.size, ← hx, ← hy, List.length_map, List.length_map]
  obtain ⟨d, hd, hdwidth, hdrows, hdclasses⟩ := exists_ofParts hgathered
  rw [← hx, ← hy, zipWith_features_label] at hdrows
  refine ⟨d, e, hd, he, hdwidth.trans hewidth.symm, ?_, fun label => ?_⟩
  · rw [hdclasses, heclasses]
    refine LabelSet.ext_mem fun label => ?_
    have hfound : ∀ places : List Nat, label ∈ places.filterMap (y[·]?) ↔
        ∃ i, i ∈ places.filter (y[·]? = some label) := fun places => by
      simp
    rw [LabelSet.mem_ofList, LabelSet.mem_ofList, hfound, horder, ← hfound, filterMap_range_getElem?]
  · have hrows : e.rows = (e.gather (List.range e.size)).rows := by rw [gather_range]
    have hey : e.labels = y := hlabels
    have hesize : e.size = y.length := by rw [← hey, labels, List.length_map, size]
    rw [hdrows, filter_gather, hey, horder]
    conv_rhs => rw [hrows, filter_gather, hey, hesize]

end Dataset

namespace Blobs

/-! ### Places -/

section
variable {size blobs i : Nat}

theorem blobs_pos (h : i < blobs * size) : 0 < blobs :=
  Nat.pos_of_mul_pos_right (Nat.zero_lt_of_lt h)

theorem div_place {k j : Nat} (hj : j < size) : (k * size + j) / size = k := by
  rw [Nat.add_comm, Nat.add_mul_div_right _ _ (Nat.zero_lt_of_lt hj), Nat.div_eq_of_lt hj, Nat.zero_add]

theorem place_lt {k j : Nat} (hk : k < blobs) (hj : j < size) : k * size + j < blobs * size := calc
  k * size + j < k * size + size := Nat.add_lt_add_left hj _
  _ = (k + 1) * size := (Nat.succ_mul k size).symm
  _ ≤ blobs * size := Nat.mul_le_mul_right size hk

theorem turn_lt (h : i < blobs * size) : i % blobs * size + i / blobs < blobs * size :=
  place_lt (Nat.mod_lt i (blobs_pos h)) (Nat.div_lt_of_lt_mul h)

theorem turn_div (h : i < blobs * size) : (i % blobs * size + i / blobs) / size = i % blobs :=
  div_place (Nat.div_lt_of_lt_mul h)

theorem turn_mod (h : i < blobs * size) : (i % blobs * size + i / blobs) % size = i / blobs :=
  Nat.mul_add_mod_of_lt (Nat.div_lt_of_lt_mul h)

theorem lt_of_mem_turns {p : Nat} (h : p ∈ turns size blobs) : p < blobs * size := by
  obtain ⟨i, hi, rfl⟩ := List.mem_map.1 h
  exact turn_lt (List.mem_range.1 hi)

end

/-- Every place has one turn. -/
theorem turns_perm (size blobs : Nat) : (turns size blobs).Perm (List.range (blobs * size)) := by
  have hnodup : (turns size blobs).Nodup := by
    refine List.Nodup.map_on (fun i hi i' hi' heq => ?_) List.nodup_range
    rw [List.mem_range] at hi hi'
    have hblob : i % blobs = i' % blobs := by rw [← turn_div hi, heq, turn_div hi']
    have hpoint : i / blobs = i' / blobs := by rw [← turn_mod hi, heq, turn_mod hi']
    rw [← Nat.div_add_mod i blobs, hblob, hpoint, Nat.div_add_mod]
  have hsub : turns size blobs ⊆ List.range (blobs * size) := fun p hp =>
    List.mem_range.2 (lt_of_mem_turns hp)
  exact (hnodup.subperm hsub).perm_of_length_le (Nat.le_of_eq (List.length_map _).symm)

example : turns 3 2 = [0, 3, 1, 4, 2, 5] := by decide

/-- The points of one blob have their turns in order. -/
theorem filter_turns (size blobs k : Nat) : (turns size blobs).filter (· / size = k) =
    (List.range (blobs * size)).filter (· / size = k) := by
  refine List.Perm.eq_of_pairwise (fun a b _ _ hab hba => absurd hab (Nat.lt_asymm hba)) ?_
    (List.pairwise_lt_range.filter _) ((turns_perm size blobs).filter _)
  rw [turns, List.filter_map, List.pairwise_map]
  refine (List.pairwise_lt_range.filter _).imp_of_mem fun {i i'} hi hi' hlt => ?_
  obtain ⟨hi, hblob⟩ := List.mem_filter.1 hi
  obtain ⟨hi', hblob'⟩ := List.mem_filter.1 hi'
  have hturn : i % blobs = k := (turn_div (List.mem_range.1 hi)).symm.trans (of_decide_eq_true hblob)
  have hturn' : i' % blobs = k := (turn_div (List.mem_range.1 hi')).symm.trans (of_decide_eq_true hblob')
  have hpoint : i / blobs < i' / blobs := by
    by_contra hle
    have hmul := Nat.mul_le_mul_left blobs (Nat.le_of_not_lt hle)
    have hi := Nat.div_add_mod i blobs
    have hi' := Nat.div_add_mod i' blobs
    omega
  rw [hturn, hturn']
  exact Nat.add_lt_add_left hpoint _

/-! ### Labels -/

theorem labels_eq (size : Nat) : ∀ blobs, labels size blobs = (List.range (blobs * size)).map (· / size)
  | 0 => by rw [Nat.zero_mul]; rfl
  | blobs + 1 => by
      have hlast : (List.range size).map (fun j => (blobs * size + j) / size) =
          List.replicate size blobs := by
        refine List.eq_replicate_iff.2 ⟨by rw [List.length_map, List.length_range], fun k hk => ?_⟩
        obtain ⟨j, hj, rfl⟩ := List.mem_map.1 hk
        exact div_place (List.mem_range.1 hj)
      have ih := labels_eq size blobs
      rw [labels] at ih
      rw [labels, List.range_succ, List.flatMap_append, ih, List.flatMap_singleton, Nat.succ_mul,
        List.range_add, List.map_append, List.map_map, ← hlast]
      rfl

theorem getElem?_labels {size blobs p : Nat} (h : p < blobs * size) :
    (labels size blobs)[p]? = some (p / size) := by
  rw [labels_eq, List.getElem?_map, List.getElem?_range h, Option.map_some]

theorem length_labels (size blobs : Nat) : (labels size blobs).length = blobs * size := by
  rw [labels_eq, List.length_map, List.length_range]

/-- In turns, the labels count from the first to the last again and again. -/
theorem labels_turns (size blobs : Nat) : (turns size blobs).filterMap ((labels size blobs)[·]?) =
    (List.range (blobs * size)).map (· % blobs) := by
  rw [turns, List.filterMap_map, ← List.filterMap_eq_map]
  refine List.filterMap_congr fun i hi => ?_
  have hi := List.mem_range.1 hi
  rw [Function.comp_apply, Function.comp_apply, getElem?_labels (turn_lt hi), turn_div hi]

/-! ### Rows -/

section
variable {G : Type} (draw : G → Float × G)

theorem length_blob (centroid : List Float) : ∀ (size : Nat) (g : G),
    (blob draw centroid size g).1.length = size
  | 0, _ => rfl
  | size + 1, g => by simp [blob, length_blob centroid size]

theorem length_rows (size : Nat) : ∀ (centroids : List (List Float)) (g : G),
    (rows draw size centroids g).1.length = centroids.length * size
  | [], _ => by simp [rows]
  | c :: cs, g => by
      simp only [rows, List.length_append, length_blob, length_rows size cs, List.length_cons]
      rw [Nat.succ_mul, Nat.add_comm]

/-- The points of a blob stand together, in the order in which they are drawn. -/
theorem getElem?_rows {size j : Nat} (hj : j < size) : ∀ {centroids : List (List Float)} {k : Nat}
    {centroid : List Float} (g : G), centroids[k]? = some centroid →
      (rows draw size centroids g).1[k * size + j]? =
        (blob draw centroid size (rows draw size (centroids.take k) g).2).1[j]?
  | c :: cs, 0, centroid, g, h => by
      cases Option.some.inj h
      rw [Nat.zero_mul, Nat.zero_add]
      exact List.getElem?_append_left (by rwa [length_blob])
  | c :: cs, k + 1, centroid, g, h => by
      have hplace : (k + 1) * size + j - size = k * size + j := by rw [Nat.succ_mul]; omega
      have hle : (blob draw c size g).1.length ≤ (k + 1) * size + j := by
        rw [length_blob, Nat.succ_mul]; omega
      have ih := getElem?_rows hj (blob draw c size g).2 (show cs[k]? = some centroid from h)
      refine (List.getElem?_append_right hle).trans ?_
      rw [length_blob, hplace, ih]
      rfl

theorem size_generate (size : Nat) (centroids : FeatureTable Float) (g : G) :
    (generate draw size centroids g).1.size = centroids.size * size :=
  length_rows draw size centroids.rows g

theorem lt_size_of_mem_turns {size : Nat} {centroids : FeatureTable Float} {p : Nat}
    (h : p ∈ turns size centroids.size) (g : G) : p < (generate draw size centroids g).1.size := by
  rw [size_generate]
  exact lt_of_mem_turns h

theorem size_gather_turns (size : Nat) (centroids : FeatureTable Float) (g : G) :
    ((generate draw size centroids g).1.gather (turns size centroids.size)).size =
      centroids.size * size := by
  have hplaces : ∀ p ∈ turns size centroids.size,
      decide (p < (generate draw size centroids g).1.rows.length) = true := fun p hp =>
    decide_eq_true (lt_size_of_mem_turns draw hp g)
  rw [FeatureTable.size, FeatureTable.rows_gather, length_filterMap_getElem?,
    List.filter_eq_self.2 hplaces, turns, List.length_map, List.length_range]

/-- What is drawn in turns: rows and labels of the drawn blobs, gathered turn by turn. -/
theorem interleaved_eq (size : Nat) (centroids : FeatureTable Float) (g : G) :
    interleaved draw size centroids g =
      (((generate draw size centroids g).1.gather (turns size centroids.size),
        (List.range (centroids.size * size)).map (· % centroids.size)),
        (generate draw size centroids g).2) := by
  rw [← labels_turns, interleaved]
  simp only [labelled, List.getElem?_toArray]

/-- Row `i` in turns is point `i / n` of blob `i % n`, of `n` blobs. -/
theorem getElem?_turns (size : Nat) (centroids : FeatureTable Float) (g : G) {i : Nat}
    (hi : i < centroids.size * size) : ∃ centroid point,
      centroids.rows[i % centroids.size]? = some centroid ∧
      (blob draw centroid size (rows draw size (centroids.rows.take (i % centroids.size)) g).2).1[
        i / centroids.size]? = some point ∧
      ((generate draw size centroids g).1.gather (turns size centroids.size)).rows[i]? = some point := by
  have hpoint : i / centroids.size < size := Nat.div_lt_of_lt_mul hi
  obtain ⟨centroid, hcentroid⟩ : ∃ centroid, centroids.rows[i % centroids.size]? = some centroid :=
    ⟨_, List.getElem?_eq_getElem (Nat.mod_lt i (blobs_pos hi))⟩
  have hblob := getElem?_rows draw hpoint g hcentroid
  obtain ⟨point, hrow⟩ : ∃ point, (blob draw centroid size (rows draw size
      (centroids.rows.take (i % centroids.size)) g).2).1[i / centroids.size]? = some point :=
    ⟨_, List.getElem?_eq_getElem (by rwa [length_blob])⟩
  refine ⟨centroid, point, hcentroid, hrow, ?_⟩
  rw [FeatureTable.rows_gather, getElem?_filterMap_getElem? fun p hp => lt_size_of_mem_turns draw hp g,
    turns, List.getElem?_map, List.getElem?_range hi]
  exact hblob.trans hrow

/-- The points of one class are in the same order in turns and one blob after another. -/
theorem filter_labels_turns (size blobs label : Nat) :
    (turns size blobs).filter ((labels size blobs)[·]? = some label) =
      (List.range (labels size blobs).length).filter ((labels size blobs)[·]? = some label) := by
  have hlabel : ∀ places : List Nat, (∀ p ∈ places, p < blobs * size) →
      places.filter ((labels size blobs)[·]? = some label) = places.filter (· / size = label) :=
    fun places h => List.filter_congr fun p hp => by
      simp only [getElem?_labels (h p hp), Option.some_inj]
  rw [length_labels, hlabel _ fun _ => lt_of_mem_turns, hlabel _ fun _ => List.mem_range.1, filter_turns]

/-- Blobs in turns sort to the same as blobs one after another. -/
theorem exists_ofParts_turns (size : Nat) (centroids : FeatureTable Float) (g : G) :
    ∃ d e : Dataset Float Nat,
      Dataset.ofParts ((generate draw size centroids g).1.gather (turns size centroids.size))
        ((List.range (centroids.size * size)).map (· % centroids.size)) = .ok d ∧
      Dataset.ofParts (generate draw size centroids g).1 (labels size centroids.size) = .ok e ∧
      GroupedDataset.ofDataset d = GroupedDataset.ofDataset e ∧ d.table.sort = e.table.sort := by
  have hsize : (generate draw size centroids g).1.size = (labels size centroids.size).length := by
    rw [size_generate, length_labels]
  rw [← labels_turns]
  obtain ⟨d, e, hd, he, hwidth, hrows⟩ :=
    Dataset.exists_ofParts_gather hsize (filter_labels_turns size centroids.size)
  have hsorted : GroupedDataset.ofDataset d = GroupedDataset.ofDataset e :=
    ofDataset_eq_iff.2 ⟨hrows, hwidth⟩
  exact ⟨d, e, hd, he, hsorted, by rw [GroupedDataset.table_sort, GroupedDataset.table_sort, hsorted]⟩

end

/-- Blobs in turns are a rearrangement of the blobs one after another. Every turn has a place of its own among
the rows and labels, and row `i` is point `i / n` of blob `i % n` of `n` blobs, with the label of this blob;
there is no row to divide for if there are no blobs. Both draw alike, and both sort to the same grouped
observations and the same indexed table. -/
theorem interleaved_spec {G : Type} (draw : G → Float × G) (size : Nat) (centroids : FeatureTable Float)
    (g : G) :
    (turns size centroids.size).Perm (List.range (centroids.size * size)) ∧
    (∀ p ∈ turns size centroids.size, p < (labelled draw size centroids g).1.1.size ∧
      p < (labelled draw size centroids g).1.2.length) ∧
    (interleaved draw size centroids g).1.1.size = centroids.size * size ∧
    (interleaved draw size centroids g).1.2.length = centroids.size * size ∧
    (∀ i < centroids.size * size, 0 < centroids.size ∧
      (interleaved draw size centroids g).1.2[i]? = some (i % centroids.size) ∧
      ∃ centroid point, centroids.rows[i % centroids.size]? = some centroid ∧
        (blob draw centroid size (rows draw size (centroids.rows.take (i % centroids.size)) g).2).1[
          i / centroids.size]? = some point ∧
        (interleaved draw size centroids g).1.1.rows[i]? = some point) ∧
    (interleaved draw size centroids g).2 = (labelled draw size centroids g).2 ∧
    ∃ d e : Dataset Float Nat,
      Dataset.ofParts (interleaved draw size centroids g).1.1 (interleaved draw size centroids g).1.2 =
        .ok d ∧
      Dataset.ofParts (labelled draw size centroids g).1.1 (labelled draw size centroids g).1.2 = .ok e ∧
      GroupedDataset.ofDataset d = GroupedDataset.ofDataset e ∧ d.table.sort = e.table.sort := by
  rw [interleaved_eq]
  refine ⟨turns_perm size centroids.size, fun p hp => ⟨lt_size_of_mem_turns draw hp g, ?_⟩,
    size_gather_turns draw size centroids g, ?_, fun i hi => ⟨blobs_pos hi, ?_, ?_⟩, rfl,
    exists_ofParts_turns draw size centroids g⟩
  · exact Nat.lt_of_lt_of_eq (lt_of_mem_turns hp) (length_labels size centroids.size).symm
  · rw [List.length_map, List.length_range]
  · rw [List.getElem?_map, List.getElem?_range hi, Option.map_some]
  · exact getElem?_turns draw size centroids g hi

end Blobs
end PursuitForest
