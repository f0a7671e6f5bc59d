import PursuitForest.Count
import PursuitForest.Forest.Vote
import PursuitForest.Proofs.LabelSets
/-!
Plurality votes are right.

Counting keeps one entry for every label that has votes, in label order, with the number of its
votes (`countVotes_spec`). A scan that goes on to a later entry only if that has more votes ends at
the first of the largest counts (`leader_spec`). The winner of a vote is therefore the smallest of
the labels with the most votes (`winner_eq_some_iff`).
-/

namespace PursuitForest

variable {L : Type} [Label L]

/-- The smallest of the labels with the most votes. -/
structure MostVoted (votes : List L) (label : L) : Prop where
  voted : label ∈ votes
  count_le : ∀ other, votes.count other ≤ votes.count label
  least : ∀ other, votes.count other = votes.count label → label ≤ other

/-- There is only one such label. -/
theorem MostVoted.unique {votes : List L} {a b : L} (ha : MostVoted votes a)
    (hb : MostVoted votes b) : a = b := by
  have hcount : votes.count a = votes.count b := Nat.le_antisymm (hb.count_le a) (ha.count_le b)
  exact Std.le_antisymm (ha.least b hcount.symm) (hb.least a hcount)

/-! ### Counting -/

/-- The votes that some counts give to a label. -/
def votesFor (label : L) : List (L × Nat) → Nat
  | [] => 0
  | (l, n) :: rest => (if l = label then n else 0) + votesFor label rest

theorem mem_addVote {label : L} {p : L × Nat} : ∀ {counts : List (L × Nat)},
    p ∈ addVote label counts → p ∈ counts ∨ p.1 = label ∧ 0 < p.2
  | [], h => by
      rw [addVote, List.mem_singleton] at h
      subst h
      exact .inr ⟨rfl, Nat.one_pos⟩
  | (l, n) :: rest, h => by
      rw [addVote] at h
      split at h
      · rcases List.mem_cons.1 h with rfl | h
        · exact .inr ⟨rfl, Nat.one_pos⟩
        · exact .inl h
      · split at h
        · next heq =>
          rcases List.mem_cons.1 h with rfl | h
          · exact .inr ⟨heq.symm, Nat.succ_pos n⟩
          · exact .inl (List.mem_cons_of_mem _ h)
        · rcases List.mem_cons.1 h with rfl | h
          · exact .inl List.mem_cons_self
          · rcases mem_addVote h with h | h
            · exact .inl (List.mem_cons_of_mem _ h)
            · exact .inr h

theorem pairwise_addVote {label : L} : ∀ {counts : List (L × Nat)},
    counts.Pairwise (·.1 < ·.1) → (addVote label counts).Pairwise (·.1 < ·.1)
  | [], _ => List.pairwise_singleton _ _
  | (l, n) :: rest, h => by
      obtain ⟨hl, hrest⟩ := List.pairwise_cons.1 h
      rw [addVote]
      split
      · next hlt =>
        refine List.pairwise_cons.2 ⟨fun p hp => ?_, h⟩
        rcases List.mem_cons.1 hp with rfl | hp
        · exact hlt
        · exact Label.lt_trans hlt (hl p hp)
      · next hnlt =>
        split
        · exact List.pairwise_cons.2 ⟨hl, hrest⟩
        · next hne =>
          refine List.pairwise_cons.2 ⟨fun p hp => ?_, pairwise_addVote hrest⟩
          rcases mem_addVote hp with hp | ⟨hp, -⟩
          · exact hl p hp
          · rw [hp]
            exact Label.lt_of_ne_of_not_lt hne hnlt

theorem votesFor_addVote (label other : L) : ∀ counts : List (L × Nat),
    votesFor other (addVote label counts) = votesFor other counts + if label = other then 1 else 0
  | [] => by simp [addVote, votesFor]
  | (l, n) :: rest => by
      have ih := votesFor_addVote label other rest
      rw [addVote]
      split
      · simp only [votesFor]
        omega
      · split
        · next heq =>
          subst heq
          simp only [votesFor]
          split <;> omega
        · simp only [votesFor]
          omega

/-- One entry for every label that has votes, in label order. -/
structure Counts (votes : List L) (counts : List (L × Nat)) : Prop where
  ascending : counts.Pairwise (·.1 < ·.1)
  positive : ∀ p ∈ counts, 0 < p.2
  votesFor_eq : ∀ label, votesFor label counts = votes.count label

theorem Counts.addVote {votes : List L} {counts : List (L × Nat)} (h : Counts votes counts)
    (label : L) : Counts (votes ++ [label]) (addVote label counts) where
  ascending := pairwise_addVote h.ascending
  positive p hp := by
    rcases mem_addVote hp with hp | ⟨-, hp⟩
    · exact h.positive p hp
    · exact hp
  votesFor_eq other := by
    rw [votesFor_addVote, h.votesFor_eq, List.count_append, List.count_singleton]
    simp

/-- Counting votes one after the other counts them. -/
theorem countVotes_spec (votes : List L) : Counts votes (countVotes votes) := by
  have hfold : ∀ (rest done : List L) (counts : List (L × Nat)), Counts done counts →
      Counts (done ++ rest) (rest.foldl (fun counts label => addVote label counts) counts) := by
    intro rest
    induction rest with
    | nil =>
      intro done counts h
      simpa using h
    | cons label rest ih =>
      intro done counts h
      have hnext := ih (done ++ [label]) (PursuitForest.addVote label counts) (h.addVote label)
      simpa using hnext
  exact hfold votes [] [] ⟨List.Pairwise.nil, nofun, fun _ => rfl⟩

/-- A label without an entry has no votes. -/
theorem votesFor_eq_zero {label : L} : ∀ {counts : List (L × Nat)},
    (∀ p ∈ counts, p.1 ≠ label) → votesFor label counts = 0
  | [], _ => rfl
  | (l, n) :: rest, h => by
      obtain ⟨hl, hrest⟩ := List.forall_mem_cons.1 h
      rw [votesFor, if_neg hl, votesFor_eq_zero hrest]

/-- An entry holds all votes for its label. -/
theorem votesFor_of_mem {p : L × Nat} : ∀ {counts : List (L × Nat)},
    counts.Pairwise (·.1 < ·.1) → p ∈ counts → votesFor p.1 counts = p.2
  | (l, n) :: rest, h, hp => by
      obtain ⟨hl, hrest⟩ := List.pairwise_cons.1 h
      rcases List.mem_cons.1 hp with rfl | hp
      · have hnone : ∀ q ∈ rest, q.1 ≠ l := fun q hq => (Label.ne_of_lt (hl q hq)).symm
        rw [votesFor, if_pos rfl, votesFor_eq_zero hnone, Nat.add_zero]
      · rw [votesFor, if_neg (Label.ne_of_lt (hl p hp)), votesFor_of_mem hrest hp, Nat.zero_add]

namespace Counts

variable {votes : List L} {counts : List (L × Nat)}

theorem count_of_mem (h : Counts votes counts) {p : L × Nat} (hp : p ∈ counts) :
    votes.count p.1 = p.2 := by
  rw [← h.votesFor_eq, votesFor_of_mem h.ascending hp]

/-- Every label that has votes has an entry. -/
theorem exists_mem (h : Counts votes counts) {label : L} (hlabel : label ∈ votes) :
    (label, votes.count label) ∈ counts := by
  have hpos : 0 < votes.count label := List.count_pos_iff.2 hlabel
  have hmem : ∃ p ∈ counts, p.1 = label := Classical.byContradiction fun hnone => by
    have hzero := votesFor_eq_zero fun p hp heq => hnone ⟨p, hp, heq⟩
    rw [h.votesFor_eq] at hzero
    omega
  obtain ⟨p, hp, rfl⟩ := hmem
  rwa [h.count_of_mem hp]

end Counts

/-! ### The winner -/

/-- A scan ends at the first entry of the largest count. -/
theorem leader_spec : ∀ {rest : List (L × Nat)} {ahead : L × Nat},
    (ahead :: rest).Pairwise (·.1 < ·.1) → ∃ p ∈ ahead :: rest, leader ahead rest = p.1 ∧
      ∀ q ∈ ahead :: rest, q.2 ≤ p.2 ∧ (q.2 = p.2 → p.1 ≤ q.1)
  | [], ahead, _ => by
      refine ⟨ahead, List.mem_cons_self, rfl, fun q hq => ?_⟩
      rw [List.mem_singleton] at hq
      subst hq
      exact ⟨Nat.le_refl _, fun _ => Std.le_refl _⟩
  | next :: rest, ahead, h => by
      obtain ⟨hahead, hnext⟩ := List.pairwise_cons.1 h
      have hlt : ahead.1 < next.1 := hahead next List.mem_cons_self
      rw [leader]
      split
      · -- the entry ahead stays, and it comes before the one passed over
        next hle =>
        have hrest : (ahead :: rest).Pairwise (·.1 < ·.1) := List.pairwise_cons.2
          ⟨fun q hq => hahead q (List.mem_cons_of_mem _ hq), (List.pairwise_cons.1 hnext).2⟩
        obtain ⟨p, hp, hleader, hmax⟩ := leader_spec hrest
        obtain ⟨hp2, hp1⟩ := hmax ahead List.mem_cons_self
        refine ⟨p, ?_, hleader, fun q hq => ?_⟩
        · rcases List.mem_cons.1 hp with rfl | hp
          · exact List.mem_cons_self
          · exact List.mem_cons_of_mem _ (List.mem_cons_of_mem _ hp)
        · rcases List.mem_cons.1 hq with rfl | hq
          · exact ⟨hp2, hp1⟩
          · rcases List.mem_cons.1 hq with rfl | hq
            · refine ⟨Nat.le_trans hle hp2, fun heq => ?_⟩
              exact Std.le_trans (hp1 (by omega)) (Label.le_of_lt hlt)
            · exact hmax q (List.mem_cons_of_mem _ hq)
      · -- the entry ahead is overtaken by one with more votes
        next hle =>
        obtain ⟨p, hp, hleader, hmax⟩ := leader_spec hnext
        have hp2 := (hmax next List.mem_cons_self).1
        refine ⟨p, List.mem_cons_of_mem _ hp, hleader, fun q hq => ?_⟩
        rcases List.mem_cons.1 hq with rfl | hq
        · exact ⟨by omega, fun heq => by omega⟩
        · exact hmax q hq

/-- The winner of a vote is the smallest of the labels with the most votes. -/
theorem winner_eq_some_iff {votes : List L} {label : L} :
    winner votes = some label ↔ MostVoted votes label := by
  have hcounts := countVotes_spec votes
  have hwins : ∀ label, winner votes = some label → MostVoted votes label := by
    intro label h
    rw [winner] at h
    cases hentries : countVotes votes with
    | nil => rw [hentries, plurality] at h; cases h
    | cons first rest =>
      rw [hentries] at hcounts h
      obtain ⟨p, hp, hleader, hmax⟩ := leader_spec hcounts.ascending
      obtain rfl : p.1 = label := hleader.symm.trans (Option.some.inj h)
      have hpos := hcounts.positive p hp
      have hcount := hcounts.count_of_mem hp
      have hentry : ∀ other, other ∈ votes → (other, votes.count other) ∈ first :: rest :=
        fun other hother => hcounts.exists_mem hother
      refine ⟨List.count_pos_iff.1 (by omega), fun other => ?_, fun other heq => ?_⟩
      · by_cases hother : other ∈ votes
        · have hle := (hmax _ (hentry other hother)).1
          rwa [hcount]
        · rw [List.count_eq_zero.2 hother]
          exact Nat.zero_le _
      · have hother : other ∈ votes := List.count_pos_iff.1 (by omega)
        exact (hmax _ (hentry other hother)).2 (heq.trans hcount)
  constructor
  · exact hwins label
  · intro h
    cases hwinner : winner votes with
    | some other => exact congrArg some ((hwins other hwinner).unique h)
    | none =>
      rw [winner] at hwinner
      cases hentries : countVotes votes with
      | nil =>
        have hentry := hcounts.exists_mem h.voted
        rw [hentries] at hentry
        cases hentry
      | cons first rest => rw [hentries, plurality] at hwinner; cases hwinner

/-- Where there are votes, there is a winner. -/
theorem exists_winner {votes : List L} (h : votes ≠ []) : ∃ label, winner votes = some label := by
  obtain ⟨vote, hvote⟩ := List.exists_mem_of_ne_nil _ h
  have hentry := (countVotes_spec votes).exists_mem hvote
  cases hentries : countVotes votes with
  | nil => rw [hentries] at hentry; cases hentry
  | cons first rest => exact ⟨_, by rw [winner, hentries, plurality]⟩

/-! ### All votes -/

/-- A vote is counted for one of the labels it may be for. -/
theorem totalCount_count_cons {vote : L} (votes : List L) : ∀ {labels : List L}, labels.Nodup →
    vote ∈ labels → totalCount (labels.map fun label => (vote :: votes).count label) =
      totalCount (labels.map fun label => votes.count label) + 1
  | label :: labels, h, hvote => by
      obtain ⟨hlabel, hlabels⟩ := List.nodup_cons.1 h
      rw [List.map_cons, List.map_cons, totalCount_cons, totalCount_cons]
      by_cases heq : vote = label
      · subst heq
        have hrest : labels.map (fun label => (vote :: votes).count label) =
            labels.map fun label => votes.count label := by
          refine List.map_congr_left fun other hother => List.count_cons_of_ne ?_
          rintro rfl
          exact hlabel hother
        rw [List.count_cons_self, hrest]
        omega
      · have ih := totalCount_count_cons votes hlabels
          ((List.mem_cons.1 hvote).resolve_left heq)
        rw [List.count_cons_of_ne heq, ih]
        omega

/-- Votes for the members of a set are all counted. -/
theorem totalCount_count (classes : LabelSet L) : ∀ {votes : List L}, (∀ v ∈ votes, v ∈ classes) →
    totalCount (classes.toList.map fun label => votes.count label) = votes.length
  | [], _ => by
      induction classes.toList with
      | nil => rfl
      | cons label labels ih => simpa using ih
  | vote :: votes, h => by
      obtain ⟨hvote, hvotes⟩ := List.forall_mem_cons.1 h
      rw [totalCount_count_cons votes classes.nodup hvote, totalCount_count classes hvotes,
        List.length_cons]

end PursuitForest
