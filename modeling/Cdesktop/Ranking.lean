import Mathlib.Data.List.Nodup
import Mathlib.Data.List.Sort

/-! The stable ranking of a list by a score, the higher ones first, and the first of it. -/

namespace Ranking
set_option autoImplicit true

def higher (score : α → Int) (a b : α) : Bool := score b ≤ score a

def rank (score : α → Int) (l : List α) : List α := l.mergeSort (higher score)

/-- `a` is ranked before `b`: it scores higher, or as high and comes before it. -/
def Outranks (score : α → Int) (l : List α) (a b : α) : Prop :=
  score b < score a ∨ score b = score a ∧ [a, b].Sublist l

instance [DecidableEq α] (score : α → Int) (l : List α) (a b : α) :
    Decidable (Outranks score l a b) :=
  inferInstanceAs (Decidable (_ ∨ _))

/-- Fewer than `n` elements are ranked before `x`. -/
def Leads [DecidableEq α] (score : α → Int) (l : List α) (n : Nat) (x : α) : Prop :=
  x ∈ l ∧ (l.filter fun y => Outranks score l y x).length < n

theorem higher_trans (score : α → Int) (a b c : α) (hab : higher score a b)
    (hbc : higher score b c) : higher score a c := by
  simp only [higher, decide_eq_true_eq] at *
  omega

theorem higher_total (score : α → Int) (a b : α) : higher score a b || higher score b a := by
  simp only [higher, Bool.or_eq_true, decide_eq_true_eq]
  omega

theorem rank_perm (score : α → Int) (l : List α) : (rank score l).Perm l := List.mergeSort_perm l _

theorem mem_rank {score : α → Int} {l : List α} {x : α} : x ∈ rank score l ↔ x ∈ l :=
  List.mem_mergeSort

theorem rank_congr {score score' : α → Int} {l : List α} (h : ∀ x ∈ l, score x = score' x) :
    rank score l = rank score' l := by
  have hmap := List.map_mergeSort (f := id) (r := higher score) (s := higher score') (l := l)
    (fun a ha b hb => by simp only [higher, id, h a ha, h b hb])
  simpa [rank] using hmap

theorem rank_map (score : β → Int) (f : α → β) (l : List α) :
    rank score (l.map f) = (rank (fun x => score (f x)) l).map f :=
  (List.map_mergeSort (f := f) (r := higher fun x => score (f x)) (s := higher score)
    fun _ _ _ _ => rfl).symm

theorem pair_sublist_or {l : List α} {a b : α} (ha : a ∈ l) (hb : b ∈ l) (hne : a ≠ b) :
    [a, b].Sublist l ∨ [b, a].Sublist l := by
  induction l with
  | nil => cases ha
  | cons x l ih =>
    rcases List.mem_cons.1 ha with rfl | hal
    · rcases List.mem_cons.1 hb with rfl | hbl
      · exact absurd rfl hne
      · exact .inl ((List.singleton_sublist.2 hbl).cons_cons _)
    · rcases List.mem_cons.1 hb with rfl | hbl
      · exact .inr ((List.singleton_sublist.2 hal).cons_cons _)
      · exact (ih hal hbl).imp (·.cons x) (·.cons x)

theorem pair_sublist_asymm {l : List α} (hn : l.Nodup) {a b : α} (hab : [a, b].Sublist l)
    (hba : [b, a].Sublist l) : False := by
  induction l with
  | nil => cases hab
  | cons x l ih =>
    obtain ⟨hx, hn⟩ := List.nodup_cons.1 hn
    cases hab with
    | cons _ hab =>
      cases hba with
      | cons _ hba => exact ih hn hab hba
      | cons_cons _ hba => exact hx (hab.subset (by simp))
    | cons_cons _ hab =>
      cases hba with
      | cons _ hba => exact hx (hba.subset (by simp))
      | cons_cons _ hba => exact hx (List.singleton_sublist.1 hab)

theorem pair_sublist_irrefl {l : List α} (hn : l.Nodup) {a : α} : ¬ [a, a].Sublist l :=
  fun h => pair_sublist_asymm hn h h

variable {score : α → Int} {l : List α}

theorem Outranks.asymm (hn : l.Nodup) {a b : α} (hab : Outranks score l a b)
    (hba : Outranks score l b a) : False := by
  rcases hab with hlt | ⟨heq, hab⟩
  · rcases hba with hlt' | ⟨heq', -⟩ <;> omega
  · rcases hba with hlt' | ⟨-, hba⟩
    · omega
    · exact pair_sublist_asymm hn hab hba

theorem rank_pairwise (hn : l.Nodup) : (rank score l).Pairwise (Outranks score l) := by
  refine List.pairwise_iff_forall_sublist.2 fun {a b} hab => ?_
  have hrank : (rank score l).Nodup := (rank_perm score l).nodup_iff.2 hn
  have hle : score b ≤ score a := by
    have hpair := List.pairwise_mergeSort (higher_trans score) (higher_total score) l
    simpa [higher] using List.pairwise_iff_forall_sublist.1 hpair hab
  have hne : a ≠ b := by
    rintro rfl
    exact pair_sublist_irrefl hrank hab
  rcases Int.lt_or_eq_of_le hle with hlt | heq
  · exact .inl hlt
  · refine .inr ⟨heq, ?_⟩
    have ha : a ∈ l := mem_rank.1 (hab.subset (by simp))
    have hb : b ∈ l := mem_rank.1 (hab.subset (by simp))
    rcases pair_sublist_or ha hb hne with hl | hl
    · exact hl
    · have hba : [b, a].Sublist (rank score l) := List.pair_sublist_mergeSort (higher_trans score)
        (higher_total score) (by simp [higher, heq]) hl
      exact (pair_sublist_asymm hrank hab hba).elim

/-- The first `n` of the ranking are the elements that fewer than `n` outrank. -/
theorem mem_take_rank [DecidableEq α] (hn : l.Nodup) {n : Nat} {x : α} :
    x ∈ (rank score l).take n ↔ Leads score l n x := by
  have hrank : (rank score l).Nodup := (rank_perm score l).nodup_iff.2 hn
  by_cases hx : x ∈ l
  · obtain ⟨before, after, hsplit⟩ := List.append_of_mem ((rank_perm score l).mem_iff.2 hx)
    have hpair : (rank score l).Pairwise (Outranks score l) := rank_pairwise hn
    rw [hsplit, List.pairwise_append, List.pairwise_cons] at hpair
    have hcount : (l.filter fun y => Outranks score l y x).length = before.length := by
      rw [← ((rank_perm score l).filter _).length_eq, hsplit, List.filter_append,
        List.filter_cons_of_neg, List.filter_eq_self.2, List.filter_eq_nil_iff.2,
        List.append_nil]
      · intro y hy hyx
        exact Outranks.asymm hn (of_decide_eq_true hyx) (hpair.2.1.1 y hy)
      · intro y hy
        exact decide_eq_true (hpair.2.2 y hy x List.mem_cons_self)
      · intro hxx
        exact Outranks.asymm hn (of_decide_eq_true hxx) (of_decide_eq_true hxx)
    rw [hsplit, List.nodup_append, List.nodup_cons] at hrank
    have hnot : x ∉ before := fun hm => hrank.2.2 x hm x List.mem_cons_self rfl
    rw [Leads, hcount, hsplit, List.take_append, List.mem_append]
    constructor
    · rintro (hm | hm)
      · exact absurd (List.mem_of_mem_take hm) hnot
      · refine ⟨hx, ?_⟩
        by_contra hle
        rw [Nat.sub_eq_zero_of_le (Nat.le_of_not_lt hle)] at hm
        cases hm
    · rintro ⟨-, hlt⟩
      obtain ⟨k, hk⟩ := Nat.exists_eq_add_of_lt hlt
      rw [hk, show before.length + k + 1 - before.length = k + 1 by omega, List.take_succ_cons]
      exact .inr List.mem_cons_self
  · constructor
    · intro hm
      exact absurd (mem_rank.1 (List.mem_of_mem_take hm)) hx
    · intro hm
      exact absurd hm.1 hx

theorem filter_rank (hn : l.Nodup) (p : α → Bool) :
    (rank score l).filter p = rank score (l.filter p) := by
  have hsub : (l.filter p).Sublist l := List.filter_sublist
  refine List.Perm.eq_of_pairwise ?_ (?_ : List.Pairwise (Outranks score l) _) ?_ ?_
  · intro a b _ _ hab hba
    exact (Outranks.asymm hn hab hba).elim
  · exact (rank_pairwise hn).sublist List.filter_sublist
  · refine (rank_pairwise (hn.sublist hsub)).imp fun h => ?_
    exact h.imp_right fun ⟨heq, hab⟩ => ⟨heq, hab.trans hsub⟩
  · exact ((rank_perm score l).filter p).trans (rank_perm score (l.filter p)).symm

theorem take_eq_take_filter {p : α → Bool} {n : Nat} (h : ∀ x ∈ l.take n, p x = true) :
    l.take n = (l.filter p).take n := by
  induction l generalizing n with
  | nil => rfl
  | cons x l ih =>
    cases n with
    | zero => rfl
    | succ n =>
      rw [List.take_succ_cons, List.forall_mem_cons] at h
      rw [List.filter_cons_of_pos h.1, List.take_succ_cons, List.take_succ_cons, ih h.2]

/-- Where the first `n` of a ranking all have a property, only elements with it were ranked. -/
theorem take_rank_filter (hn : l.Nodup) {p : α → Bool} {n : Nat}
    (h : ∀ x ∈ (rank score l).take n, p x = true) :
    (rank score l).take n = (rank score (l.filter p)).take n := by
  rw [take_eq_take_filter h, filter_rank hn]

end Ranking
