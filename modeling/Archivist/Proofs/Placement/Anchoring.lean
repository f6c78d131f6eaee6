import Archivist.Proofs.Placement.Keeping
set_option autoImplicit false

namespace Archivist

namespace Destination

def held (fs : List FileEntry) (m : Member) : Nat := fs.countP (·.isOn m.node.name)

theorem placements_eq_held {fs : List FileEntry} (nodup : ∀ f ∈ fs, f.holders.Nodup) (m : Member) :
    placements fs m.node.name = held fs m := by
  induction fs with
  | nil => rfl
  | cons f fs ih =>
    have here := List.nodup_iff_count_le_one.1 (nodup f List.mem_cons_self) m.node.name
    have there : f.isOn m.node.name = true ↔ 1 ≤ f.holders.count m.node.name := isOn_iff
    rw [placements_cons, held, List.countP_cons, ← held,
      ih fun g hg => nodup g (List.mem_cons_of_mem _ hg)]
    split
    · rename_i on
      have named := there.1 on
      omega
    · rename_i off
      have unnamed := mt there.2 off
      omega

/-- A node that holds most of some files, and is met first of those that do. -/
structure Anchors (nodes : List Member) (fs : List FileEntry) (a : Member) : Prop where
  mem : a ∈ nodes
  ahead : ∀ m ∈ nodes, m ≠ a →
    held fs m < held fs a ∨ held fs m = held fs a ∧ MetBefore fs a m

section Anchor

variable {s : Section} {fleet : Fleet} {nodes ms : List Member} {fs : List FileEntry} {a : Member}

theorem counts_eq_nil (distinct : (nodes.map (·.node.name)).Nodup) :
    counts nodes fs = [] ↔ ∀ m ∈ nodes, ∀ f ∈ fs, f.isOn m.node.name = false := by
  have t := tally_counts distinct fs
  have named : ∀ m : Member, m.node.name ∈ fs.flatMap (·.holders) ↔
      ∃ f ∈ fs, f.isOn m.node.name = true := by
    intro m
    simp [FileEntry.isOn]
  rw [List.eq_nil_iff_forall_not_mem]
  constructor
  · intro hnone m hm f hf
    by_contra on
    have there := (named m).2 ⟨f, hf, by simpa using on⟩
    exact hnone (m, _) ((t.mem m _).2 ⟨hm, rfl, List.count_pos_iff.2 there⟩)
  · intro nobody e he
    obtain ⟨f, hf, on⟩ := (named e.1).1 (t.named he)
    rw [nobody e.1 ((t.mem e.1 e.2).1 he).1 f hf] at on
    cases on

theorem anchor_eq_none (distinct : (nodes.map (·.node.name)).Nodup) :
    anchor nodes fs = none ↔ ∀ m ∈ nodes, ∀ f ∈ fs, f.isOn m.node.name = false := by
  rw [anchor_eq_none_iff, counts_eq_nil distinct]

theorem anchors_of_anchor (distinct : (nodes.map (·.node.name)).Nodup)
    (nodup : ∀ f ∈ fs, f.holders.Nodup) (h : anchor nodes fs = some a) : Anchors nodes fs a := by
  have t := tally_counts distinct fs
  have order := met_counts distinct fs
  have number : ∀ m k, (m, k) ∈ counts nodes fs ↔ m ∈ nodes ∧ k = held fs m ∧ 0 < k := by
    intro m k
    rw [t.mem m k, ← placements_eq_held nodup, placements]
  obtain ⟨k, front, back, eq, less, notMore⟩ := anchor_eq_some h
  rw [eq] at number order
  obtain ⟨mem, rfl, pos⟩ := (number a k).1 (by simp)
  refine ⟨mem, ?_⟩
  intro m hm ne
  -- a node that holds nothing has no entry, and the others stand before or behind the anchor
  rcases Nat.eq_zero_or_pos (held fs m) with zero | hsome
  · exact .inl (zero ▸ pos)
  · have entry := (number m _).2 ⟨hm, rfl, hsome⟩
    rcases List.mem_append.1 entry with before | rest
    · exact .inl (less _ before)
    · rcases List.mem_cons.1 rest with same | after
      · exact absurd (congrArg Prod.fst same) ne
      · have met := (List.pairwise_cons.1 (List.pairwise_append.1 order).2.1).1 _ after
        rcases Nat.lt_or_eq_of_le (notMore _ after) with lt | tie
        · exact .inl lt
        · exact .inr ⟨tie, met⟩

theorem byAffinity_eq_none (fs : List FileEntry) (distinct : (nodes.map (·.node.name)).Nodup)
    (pos : 1 ≤ s.copies) :
    byAffinity s fs nodes nodes nodes = none ↔
      nodes.length < s.copies ∨ ∀ m ∈ nodes, ∀ f ∈ fs, f.isOn m.node.name = false := by
  rw [← anchor_eq_none distinct]
  unfold byAffinity
  by_cases short : nodes.length < s.copies
  · simp [short]
  · rw [if_neg short]
    cases found : anchor nodes fs with
    | none => simp
    | some a =>
      dsimp only
      have mem := (mem_of_anchor distinct found).2
      have names : ([a].map (·.node.name)).Nodup := List.nodup_singleton _
      have sub : [a] ⊆ nodes := by simpa using mem
      have fits : [a].length ≤ s.copies := pos
      rw [fillUp_eq_none distinct names sub fits]
      simp

theorem filledUp_byAffinity (built : fleet.Built) (pos : 1 ≤ s.copies)
    (nodup : ∀ f ∈ fs, f.holders.Nodup)
    (h : byAffinity s fs (eligible s fleet) (eligible s fleet) (eligible s fleet) = some ms) :
    ∃ a, Anchors (eligible s fleet) fs a ∧ FilledUp s fleet [a] ms := by
  have distinct := names_eligible built.distinct s
  unfold byAffinity at h
  split at h
  · cases h
  · cases found : anchor (eligible s fleet) fs with
    | none =>
      rw [found] at h
      cases h
    | some a =>
      rw [found] at h
      have anchors := anchors_of_anchor distinct nodup found
      exact ⟨a, anchors,
        filledUp_fillUp built (List.nodup_singleton _) (by simpa using anchors.mem) pos h⟩

end Anchor

end Destination

namespace Policy

theorem find_byAffinity {p : Policy} {w : World} {d : Dir} {fs : List FileEntry}
    (finder : p.finder = .placement) (rule : p.section_.placement = .affinity)
    (dir : p.directory = some d) (listed : p.files w.namespace_ d = .ok fs) :
    p.find w = .answer (Destination.byAffinity p.section_ fs (p.eligible w) (p.eligible w)
      (p.eligible w)) := by
  unfold find requireDirectory
  rw [finder, dir]
  dsimp only
  rw [rule]
  dsimp only
  split
  · rename_i short
    rw [Destination.byAffinity, if_pos short]
  · rw [listed]

end Policy

open Destination in
/-- A directory that is archived by affinity gets no nodes if and only if there are too few eligible
nodes online or none of them holds a file.  Otherwise it gets as many as the section wants: first
the one that holds most of the files, of several the one that is met first in the placement lists,
and behind it the roomiest of the others.  With enough nodes a directory that is not there is an
error. -/
theorem find_affinity_filledUp (p : Policy) (w : World) (d : Dir)
    (built : w.fleet.Built) (finder : p.finder = .placement)
    (rule : p.section_.placement = .affinity) (pos : 1 ≤ p.section_.copies)
    (dir : p.directory = some d) :
    (∀ e, p.files w.namespace_ d = .error e → p.section_.copies ≤ (p.eligible w).length →
        p.find w = .error e) ∧
      ∀ fs, p.files w.namespace_ d = .ok fs → (∀ f ∈ fs, f.holders.Nodup) →
        (p.find w = .answer none ↔ (p.eligible w).length < p.section_.copies ∨
          ∀ m ∈ p.eligible w, ∀ f ∈ fs, f.isOn m.node.name = false) ∧
        (¬ ((p.eligible w).length < p.section_.copies ∨
            ∀ m ∈ p.eligible w, ∀ f ∈ fs, f.isOn m.node.name = false) →
          ∃ a ms, p.find w = .answer (some ms) ∧ Anchors (p.eligible w) fs a ∧
            FilledUp p.section_ w.fleet [a] ms) := by
  refine ⟨fun e unlisted enough => Policy.find_of_unlisted finder dir unlisted (.inr enough), ?_⟩
  intro fs listed nodup
  have distinct := Policy.names_eligible (p := p) built
  have hnone := byAffinity_eq_none fs distinct pos
  rw [Policy.find_byAffinity finder rule dir listed, Search.answer.injEq]
  refine ⟨hnone, ?_⟩
  intro enough
  obtain ⟨ms, found⟩ := Option.ne_none_iff_exists'.1 fun nobody => enough (hnone.1 nobody)
  obtain ⟨a, anchors, filled⟩ := filledUp_byAffinity built pos nodup found
  exact ⟨a, ms, congrArg Search.answer found, anchors, filled⟩

theorem find_affinity_scattered :
    ∃ a ms, (thriceCopied .affinity).find scattered = .answer (some ms) ∧
      a.node.name = "n4" ∧ ms.map (·.node.name) = ["n4", "n2", "n3"] ∧
      Destination.FilledUp (thriceCopied .affinity).section_ scattered.fleet [a] ms := by
  have listed := files_scattered .affinity
  obtain ⟨-, whole⟩ := find_affinity_filledUp (thriceCopied .affinity) scattered _
    scattered_built rfl rfl (by decide) rfl
  obtain ⟨-, finds⟩ := whole _ listed (by decide)
  obtain ⟨a, ms, found, -, filled⟩ := finds (by decide +kernel)
  have search := Policy.find_byAffinity rfl rfl rfl listed
  have nodes : (thriceCopied .affinity).eligible scattered = scatteredNodes := by decide +kernel
  rw [found, Search.answer.injEq, nodes] at search
  have names : (some ms).map (List.map (·.node.name)) = some ["n4", "n2", "n3"] := by
    rw [search]
    cbv
  have names := Option.some.inj names
  obtain ⟨fill, rfl, -⟩ := filled.filled
  exact ⟨a, _, found, (List.cons.inj names).1, names, filled⟩

end Archivist
