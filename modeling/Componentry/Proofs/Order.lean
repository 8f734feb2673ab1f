import Componentry.Assembly
import Mathlib.Data.List.Nodup

/-!
# Componentry.Proofs.Order

The order in which configurations run. `StableDescending` says it without a sorting algorithm:
priorities descend, and configurations of one priority stay as they were submitted. `Plan.ordered`
is such an order (`stableDescending_ordered`), and there is no other one
(`StableDescending.unique`). So a build cares for the order of submission within one priority only
(`build_submission_within_priorities`).
-/

namespace Componentry

/-- `ordered` are the configurations of `submitted` by descending priority, those of each priority
in the order of submission. -/
structure StableDescending (submitted ordered : List Configuration) : Prop where
  descending : ordered.Pairwise fun a b => b.priority ≤ a.priority
  stable : ∀ priority : Int, ordered.filter (·.priority == priority) =
    submitted.filter (·.priority == priority)

/-- Whether one configuration may run before another. -/
def Configuration.mayPrecede (a b : Configuration) : Bool := b.priority ≤ a.priority

namespace Configuration

theorem mayPrecede_iff {a b : Configuration} : a.mayPrecede b = true ↔ b.priority ≤ a.priority := by
  rw [mayPrecede, decide_eq_true_eq]

theorem mayPrecede_trans (a b c : Configuration) (hab : a.mayPrecede b = true)
    (hbc : b.mayPrecede c = true) : a.mayPrecede c = true := by
  rw [mayPrecede_iff] at hab hbc ⊢
  exact Int.le_trans hbc hab

theorem mayPrecede_total (a b : Configuration) : (a.mayPrecede b || b.mayPrecede a) = true := by
  rw [Bool.or_eq_true, mayPrecede_iff, mayPrecede_iff]
  exact Int.le_total b.priority a.priority

end Configuration

namespace Plan

theorem ordered_eq (p : Plan) : p.ordered = p.configurations.mergeSort Configuration.mayPrecede :=
  rfl

theorem perm_ordered (p : Plan) : p.ordered.Perm p.configurations := List.mergeSort_perm _ _

/-- Configurations of one priority are in order as they were submitted, and sorting keeps every
part of a list that is in order. -/
theorem filter_ordered (p : Plan) (priority : Int) :
    p.ordered.filter (·.priority == priority) =
      p.configurations.filter (·.priority == priority) := by
  have hsorted : (p.configurations.filter (·.priority == priority)).Pairwise
      fun a b => a.mayPrecede b = true := by
    rw [List.pairwise_filter]
    refine List.pairwise_of_forall fun a b ha hb => ?_
    have heq : b.priority = a.priority := (beq_iff_eq.1 hb).trans (beq_iff_eq.1 ha).symm
    exact Configuration.mayPrecede_iff.2 (Int.le_of_eq heq)
  have hsub := List.sublist_mergeSort Configuration.mayPrecede_trans Configuration.mayPrecede_total
    hsorted List.filter_sublist
  have hkept := hsub.filter (·.priority == priority)
  rw [List.filter_filter, ← ordered_eq] at hkept
  simp only [Bool.and_self] at hkept
  exact (hkept.eq_of_length (p.perm_ordered.filter _).length_eq.symm).symm

theorem stableDescending_ordered (p : Plan) : StableDescending p.configurations p.ordered where
  descending := by
    have hsorted := List.pairwise_mergeSort Configuration.mayPrecede_trans
      Configuration.mayPrecede_total p.configurations
    exact hsorted.imp Configuration.mayPrecede_iff.1
  stable := p.filter_ordered

end Plan

/-! ## The order of submission -/

/-- Both lists have the same configurations of each priority, in the same order. -/
def SameWithinPriorities (cs cs' : List Configuration) : Prop :=
  ∀ priority : Int, cs.filter (·.priority == priority) = cs'.filter (·.priority == priority)

namespace SameWithinPriorities

variable {a b : Configuration} {cs cs' : List Configuration}

theorem symm (h : SameWithinPriorities cs cs') : SameWithinPriorities cs' cs :=
  fun priority => (h priority).symm

theorem mem_of_mem (h : SameWithinPriorities cs cs') (ha : a ∈ cs) : a ∈ cs' := by
  have hclass : a ∈ cs.filter (·.priority == a.priority) :=
    List.mem_filter.2 ⟨ha, beq_self_eq_true _⟩
  rw [h a.priority] at hclass
  exact (List.mem_filter.1 hclass).1

theorem eq_nil (h : SameWithinPriorities [] cs) : cs = [] := by
  cases cs with
  | nil => rfl
  | cons a cs => exact absurd (h.symm.mem_of_mem List.mem_cons_self) List.not_mem_nil

/-- Lists that start alike within their priorities go on alike. -/
theorem tail (h : SameWithinPriorities (a :: cs) (b :: cs')) (hp : a.priority = b.priority) :
    a = b ∧ SameWithinPriorities cs cs' := by
  have hown := h a.priority
  rw [List.filter_cons, List.filter_cons, if_pos (beq_self_eq_true _),
    if_pos (beq_iff_eq.2 hp.symm)] at hown
  obtain rfl : a = b := (List.cons.inj hown).1
  refine ⟨rfl, fun priority => ?_⟩
  have hclass := h priority
  rw [List.filter_cons, List.filter_cons] at hclass
  split at hclass
  · exact (List.cons.inj hclass).2
  · exact hclass

end SameWithinPriorities

theorem priority_le_of_mem {a b : Configuration} {cs : List Configuration}
    (h : (a :: cs).Pairwise fun a b => b.priority ≤ a.priority) (hb : b ∈ a :: cs) :
    b.priority ≤ a.priority := by
  rcases List.mem_cons.1 hb with rfl | hb
  · exact Int.le_refl _
  · exact List.rel_of_pairwise_cons h hb

/-- Of what descends, the priorities tell how they are interleaved. -/
theorem eq_of_descending {cs cs' : List Configuration}
    (hcs : cs.Pairwise fun a b => b.priority ≤ a.priority)
    (hcs' : cs'.Pairwise fun a b => b.priority ≤ a.priority)
    (h : SameWithinPriorities cs cs') : cs = cs' := by
  induction cs generalizing cs' with
  | nil => exact h.eq_nil.symm
  | cons a cs ih =>
    cases cs' with
    | nil => exact h.symm.eq_nil
    | cons b cs' =>
      -- each list starts with the greatest priority in it, and both have the same ones
      have hp : a.priority = b.priority := Int.le_antisymm
        (priority_le_of_mem hcs' (h.mem_of_mem List.mem_cons_self))
        (priority_le_of_mem hcs (h.symm.mem_of_mem List.mem_cons_self))
      obtain ⟨rfl, hrest⟩ := h.tail hp
      rw [ih hcs.of_cons hcs'.of_cons hrest]

theorem StableDescending.unique {submitted submitted' ordered ordered' : List Configuration}
    (h : StableDescending submitted ordered) (h' : StableDescending submitted' ordered')
    (hs : SameWithinPriorities submitted submitted') : ordered = ordered' :=
  eq_of_descending h.descending h'.descending fun priority =>
    (h.stable priority).trans ((hs priority).trans (h'.stable priority).symm)

/-- Where all priorities differ, no two configurations share one. -/
theorem sameWithinPriorities_of_perm {cs cs' : List Configuration} (hp : cs.Perm cs')
    (hn : (cs'.map (·.priority)).Nodup) : SameWithinPriorities cs cs' := by
  intro priority
  have hany : ∀ xs : List Configuration, xs.Pairwise fun _ _ => True :=
    fun _ => List.pairwise_of_forall fun _ _ => trivial
  refine List.Perm.eq_of_pairwise ?_ (hany _) (hany _) (hp.filter _)
  intro a b ha hb _ _
  obtain ⟨ha, hpa⟩ := List.mem_filter.1 ha
  obtain ⟨hb, hpb⟩ := List.mem_filter.1 hb
  have heq : a.priority = b.priority := (beq_iff_eq.1 hpa).trans (beq_iff_eq.1 hpb).symm
  exact List.inj_on_of_nodup_map hn (hp.mem_iff.1 ha) hb heq

/-- What is built is the same whenever the configurations of each priority are submitted in the same
order, however those of different priorities are mixed. Where all priorities differ, any order of
submission will do. -/
theorem build_submission_within_priorities (p : Plan) :
    (∀ submitted, SameWithinPriorities submitted p.configurations →
      ({ p with configurations := submitted } : Plan).build = p.build) ∧
    ∀ submitted, submitted.Perm p.configurations →
      (p.configurations.map (·.priority)).Nodup →
      ({ p with configurations := submitted } : Plan).build = p.build := by
  have hbuild : ∀ submitted, SameWithinPriorities submitted p.configurations →
      ({ p with configurations := submitted } : Plan).build = p.build := by
    intro submitted h
    have hordered := (Plan.stableDescending_ordered { p with configurations := submitted }).unique
      p.stableDescending_ordered h
    rw [Plan.build, Plan.build, Plan.run, Plan.run, hordered]
  exact ⟨hbuild, fun submitted hp hn => hbuild submitted (sameWithinPriorities_of_perm hp hn)⟩

/-- Defaults of the least priority may be submitted ahead of everything else: they still run
last. -/
theorem build_submission_within_priorities_mixed :
    let service : Option ComponentType := some (.plain "Service")
    let user : Configuration :=
      { declaration := { name := "user" }
        priority := 10
        components := [{ declaration := { name := "userService", hint? := service } }] }
    let defaults : Configuration :=
      { declaration := { name := "defaults" }
        priority := -128
        components := [{ declaration := { name := "defaultService", hint? := service }
                         conditions := [.ifMissing {}] }] }
    let first : Configuration := { declaration := { name := "first" } }
    let second : Configuration := { declaration := { name := "second" } }
    let p : Plan := { configurations := [user, first, second, defaults] }
    let submitted := [defaults, first, user, second]
    SameWithinPriorities submitted p.configurations ∧
      p.ordered = [user, first, second, defaults] ∧
      ({ p with configurations := submitted } : Plan).build = p.build ∧
      [user, defaults].Perm [defaults, user] ∧ ([defaults, user].map (·.priority)).Nodup ∧
      ({ configurations := [user, defaults] } : Plan).build =
        ({ configurations := [defaults, user] } : Plan).build := by
  intro service user defaults first second p submitted
  have hsame : SameWithinPriorities submitted p.configurations := by
    intro priority
    simp only [submitted, p, List.filter_cons, List.filter_nil]
    by_cases hu : user.priority = priority
    · simp [← hu, user, defaults, first, second]
    · by_cases hd : defaults.priority = priority
      · simp [← hd, user, defaults, first, second]
      · simp [hu, hd]
  have hswap : [user, defaults].Perm [defaults, user] := List.Perm.swap _ _ _
  have hdiffer : ([defaults, user].map (·.priority)).Nodup := by decide
  refine ⟨hsame, ?_, (build_submission_within_priorities p).1 submitted hsame, hswap, hdiffer, ?_⟩
  · simp [p, Plan.ordered, List.mergeSort, user, defaults, first, second]
  · exact (build_submission_within_priorities { configurations := [defaults, user] }).2
      [user, defaults] hswap hdiffer

end Componentry
