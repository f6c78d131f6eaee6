import Archivist.Net.Connection
import Mathlib.Data.List.Perm.Subperm
import Mathlib.Data.List.Range
set_option autoImplicit false

/-!
# Which port a listener gets

A listener tries each port of its range at most once, from some place on and around, and gets the
first that nobody listens at.  A port is never refused for being 0: to ask for it is to leave the
choice to the host.  So a range that begins at 0 and has more ports is left as soon as the turn of
its first port comes, whatever else in it is free.
-/

namespace Archivist

namespace PortRange

variable {r : PortRange} {start : Nat}

def Has (r : PortRange) (p : Nat) : Prop := r.first.toNat ≤ p ∧ p ≤ r.last.toNat

instance (r : PortRange) (p : Nat) : Decidable (r.Has p) := inferInstanceAs (Decidable (_ ∧ _))

def word (r : PortRange) (start i : Nat) : UInt16 :=
  r.first + UInt16.ofNat ((start + i) % r.size)

theorem first_add_size (r : PortRange) : r.first.toNat + r.size = r.last.toNat + 1 := by
  have ordered : r.first.toNat ≤ r.last.toNat := UInt16.le_iff_toNat_le.1 r.ordered
  unfold size
  omega

/-- Neither the offset nor the sum is too large for a word. -/
theorem toNat_word (r : PortRange) (start i : Nat) :
    (r.word start i).toNat = r.first.toNat + (start + i) % r.size := by
  have offset := Nat.mod_lt (start + i) r.size_pos
  have ends := r.first_add_size
  have last := r.last.toNat_lt
  have whole : (UInt16.ofNat ((start + i) % r.size)).toNat = (start + i) % r.size :=
    UInt16.toNat_ofNat_of_lt' (by change _ < 65536; omega)
  rw [word, UInt16.toNat_add, whole]
  exact Nat.mod_eq_of_lt (by omega)

theorem candidates_eq (own : r.isAny = false) (begins : start < r.size) :
    r.candidates start =
      List.range' (r.first.toNat + start) (r.size - start) ++ List.range' r.first.toNat start := by
  rw [candidates, if_neg (by rw [own]; exact Bool.false_ne_true)]
  apply List.ext_getElem
  · simp only [List.length_map, List.length_range, List.length_append, List.length_range']
    omega
  · intro i short _
    rw [List.length_map, List.length_range] at short
    rw [List.getElem_map, List.getElem_range, List.getElem_append]
    split
    · rename_i early
      rw [List.length_range'] at early
      rw [List.getElem_range', Nat.mod_eq_of_lt (by omega)]
      omega
    · rename_i late
      rw [List.length_range'] at late
      rw [List.getElem_range', Nat.mod_eq_sub_mod (by omega), Nat.mod_eq_of_lt (by omega),
        List.length_range']
      omega

theorem nodup_candidates (own : r.isAny = false) (begins : start < r.size) :
    (r.candidates start).Nodup := by
  rw [candidates_eq own begins, List.nodup_append]
  refine ⟨List.nodup_range', List.nodup_range', ?_⟩
  intro p late q early
  rw [List.mem_range'_1] at late early
  omega

theorem mem_candidates (own : r.isAny = false) (begins : start < r.size) {p : Nat} :
    p ∈ r.candidates start ↔ r.Has p := by
  have ends := r.first_add_size
  rw [candidates_eq own begins, List.mem_append, List.mem_range'_1, List.mem_range'_1]
  unfold Has
  omega

end PortRange

namespace Network

variable {net : Network}

/-- The port that the host gives out when it is left the choice. -/
def choice (net : Network) : Nat := net.freePort net.listening.length net.fresh

theorem freePort_cases (net : Network) (fuel n : Nat) :
    net.freePort fuel n ∉ net.listening ∨
      net.freePort fuel n = n + fuel ∧ List.range' n fuel ⊆ net.listening := by
  induction fuel generalizing n with
  | zero => exact .inr ⟨rfl, List.nil_subset _⟩
  | succ fuel ih =>
    rw [freePort]
    split
    · rename_i inUse
      rcases ih (n + 1) with free | ⟨last, rest⟩
      · exact .inl free
      · rw [List.range'_succ]
        exact .inr ⟨by omega, List.cons_subset.2 ⟨inUse, rest⟩⟩
    · rename_i free
      exact .inl free

theorem choice_free (net : Network) : net.choice ∉ net.listening := by
  rcases net.freePort_cases net.listening.length net.fresh with free | ⟨last, inUse⟩
  · exact free
  · intro mem
    have all : (List.range' net.fresh net.listening.length).Perm net.listening :=
      (List.Nodup.subperm List.nodup_range' inUse).perm_of_length_le (by rw [List.length_range'])
    have inside := all.mem_iff.2 mem
    rw [choice, last, List.mem_range'_1] at inside
    omega

def Taken (net : Network) (p : Nat) : Prop := p ≠ 0 ∧ p ∈ net.listening

instance (net : Network) (p : Nat) : Decidable (net.Taken p) :=
  inferInstanceAs (Decidable (_ ∧ _))

def granted (net : Network) (p : Nat) : Nat := if p = 0 then net.choice else p

theorem listen_of_taken {p : Nat} (taken : net.Taken p) : net.listen p = none := by
  rw [listen, if_neg taken.1, if_pos taken.2]

theorem listen_of_not_taken {p : Nat} (free : ¬ net.Taken p) :
    ∃ later, net.listen p = some (net.granted p, later) ∧
      later.listening = net.granted p :: net.listening := by
  unfold listen granted
  by_cases zero : p = 0
  · rw [if_pos zero, if_pos zero]
    exact ⟨_, rfl, rfl⟩
  · rw [if_neg zero, if_neg zero, if_neg fun mem => free ⟨zero, mem⟩]
    exact ⟨_, rfl, rfl⟩

theorem granted_free {p : Nat} (free : ¬ net.Taken p) : net.granted p ∉ net.listening := by
  unfold granted
  split
  · exact net.choice_free
  · rename_i own
    exact fun mem => free ⟨own, mem⟩

end Network

namespace PassiveConnection

variable {ip : Ip} {r : PortRange} {settings : SocketSettings} {net : Network} {start : Nat}

/-- The ports that a listener asks for, up to the one that it gets. -/
def tries (net : Network) : List Nat → List Nat
  | [] => []
  | p :: rest => p :: if net.Taken p then tries net rest else []

theorem tries_prefix (net : Network) (cs : List Nat) : tries net cs <+: cs := by
  induction cs with
  | nil => exact List.prefix_refl _
  | cons p rest ih =>
    rw [tries]
    split
    · exact (List.prefix_cons_inj p).2 ih
    · exact (List.prefix_cons_inj p).2 (List.nil_prefix)

section

variable (here : ip.isLocal = true) (usable : settings.check = .ok ())

include here usable

theorem bindFrom_of_taken {p : Nat} (taken : net.Taken p) (rest : List Nat) :
    bindFrom ip r settings net (p :: rest) = bindFrom ip r settings net rest := by
  rw [bindFrom, usable, here, Network.listen_of_taken taken]
  rfl

theorem bindFrom_of_not_taken (r : PortRange) {p : Nat} (free : ¬ net.Taken p) :
    ∃ later, later.listening = net.granted p :: net.listening ∧
      ∀ rest, bindFrom ip r settings net (p :: rest) =
        .ok (⟨ip, net.granted p, settings, true, false⟩, later) := by
  obtain ⟨later, granted, listening⟩ := Network.listen_of_not_taken free
  refine ⟨later, listening, fun rest => ?_⟩
  rw [bindFrom, usable, here, granted]
  rfl

theorem bindFrom_tries (cs : List Nat) :
    bindFrom ip r settings net (tries net cs) = bindFrom ip r settings net cs := by
  induction cs with
  | nil => rfl
  | cons p rest ih =>
    rw [tries]
    by_cases taken : net.Taken p
    · rw [if_pos taken, bindFrom_of_taken here usable taken, bindFrom_of_taken here usable taken,
        ih]
    · obtain ⟨later, -, bound⟩ := bindFrom_of_not_taken here usable r taken
      rw [if_neg taken, bound, bound]

/-- A listener gets the first port that it can have, and none if there is no such port. -/
theorem bindFrom_cases (r : PortRange) (net : Network) (cs : List Nat) :
    (∀ p ∈ cs, net.Taken p) ∧ bindFrom ip r settings net cs = .error r.exhausted ∨
      ∃ before p after later, cs = before ++ p :: after ∧ (∀ q ∈ before, net.Taken q) ∧
        ¬ net.Taken p ∧
        bindFrom ip r settings net cs =
          .ok (⟨ip, net.granted p, settings, true, false⟩, later) ∧
        later.listening = net.granted p :: net.listening := by
  induction cs with
  | nil => exact .inl ⟨fun p mem => absurd mem List.not_mem_nil, rfl⟩
  | cons p rest ih =>
    by_cases taken : net.Taken p
    · rw [bindFrom_of_taken here usable taken]
      rcases ih with ⟨all, refused⟩ | ⟨before, q, after, later, rfl, early, free, bound, listens⟩
      · exact .inl ⟨List.forall_mem_cons.2 ⟨taken, all⟩, refused⟩
      · exact .inr ⟨p :: before, q, after, later, rfl, List.forall_mem_cons.2 ⟨taken, early⟩,
          free, bound, listens⟩
    · obtain ⟨later, listens, bound⟩ := bindFrom_of_not_taken here usable r taken
      exact .inr ⟨[], p, rest, later, rfl, fun q mem => absurd mem List.not_mem_nil, taken,
        bound rest, listens⟩

end

end PassiveConnection

namespace PassiveConnection

variable {ip : Ip} {r : PortRange} {settings : SocketSettings} {net later : Network} {start : Nat}
  {c : PassiveConnection}

theorem bind_eq_ok (here : ip.isLocal = true) (usable : settings.check = .ok ())
    (bound : bind ip r settings start net = .ok (c, later)) :
    ∃ before p after, r.candidates start = before ++ p :: after ∧
      (∀ q ∈ before, net.Taken q) ∧ ¬ net.Taken p ∧ c.port = net.granted p ∧
      later.listening = c.port :: net.listening := by
  rcases bindFrom_cases here usable r net (r.candidates start) with
    ⟨-, refused⟩ | ⟨before, p, after, later', split, early, free, granted, listens⟩
  · rw [bind, refused] at bound
    cases bound
  · rw [bind, granted] at bound
    cases bound
    exact ⟨before, p, after, split, early, free, rfl, listens⟩

theorem bind_isOk (here : ip.isLocal = true) (usable : settings.check = .ok ())
    (own : r.isAny = false) (begins : start < r.size) :
    (∃ c later, bind ip r settings start net = .ok (c, later)) ↔
      ∃ p, r.Has p ∧ ¬ net.Taken p := by
  rcases bindFrom_cases here usable r net (r.candidates start) with
    ⟨all, refused⟩ | ⟨before, p, after, later, split, -, free, granted, -⟩
  · refine iff_of_false ?_ ?_
    · rintro ⟨c, later, bound⟩
      rw [bind, refused] at bound
      cases bound
    · rintro ⟨p, inside, free⟩
      exact free (all p ((PortRange.mem_candidates own begins).2 inside))
  · refine iff_of_true ⟨_, later, granted⟩ ⟨p, ?_, free⟩
    rw [← PortRange.mem_candidates own begins, split]
    exact List.mem_append_right _ List.mem_cons_self

theorem bind_eq_error (here : ip.isLocal = true) (usable : settings.check = .ok ())
    {e : TransferError} (refused : bind ip r settings start net = .error e) :
    e = .noPortAvailable r.first.toNat r.last.toNat := by
  rcases bindFrom_cases here usable r net (r.candidates start) with
    ⟨-, refused'⟩ | ⟨_, _, _, _, -, -, -, granted, -⟩
  · exact Except.error.inj (refused.symm.trans refused')
  · rw [bind, granted] at refused
    cases refused

theorem mem_before_of_lt {first count p q : Nat} {before after : List Nat}
    (split : List.range' first count = before ++ p :: after) (low : first ≤ q) (less : q < p) :
    q ∈ before := by
  have upwards : (before ++ p :: after).Pairwise (· < ·) := split ▸ List.pairwise_lt_range'
  have there : p ∈ List.range' first count :=
    split ▸ List.mem_append_right _ List.mem_cons_self
  have mem : q ∈ before ++ p :: after := by
    rw [← split, List.mem_range'_1]
    rw [List.mem_range'_1] at there
    omega
  rcases List.mem_append.1 mem with early | late
  · exact early
  · rcases List.mem_cons.1 late with rfl | behind
    · omega
    · have more := (List.pairwise_cons.1 (List.pairwise_append.1 upwards).2.1).1 q behind
      omega

theorem split_append {xs ys before after : List Nat} {p : Nat}
    (split : xs ++ ys = before ++ p :: after) :
    (∃ rest, xs = before ++ p :: rest) ∨
      ∃ front, before = xs ++ front ∧ ys = front ++ p :: after := by
  rcases List.append_eq_append_iff.1 split with ⟨front, eq, second⟩ | ⟨rest, first, second⟩
  · exact .inr ⟨front, eq, second⟩
  · cases rest with
    | nil =>
      rw [List.append_nil] at first
      exact .inr ⟨[], by rw [List.append_nil, first], second.symm⟩
    | cons q rest =>
      obtain ⟨rfl, -⟩ := List.cons.inj second
      exact .inl ⟨rest, first⟩

/-- In a range that begins at 0 a listener gets a port between the start and the end of the range,
or it has found none there and leaves the choice to the host. -/
theorem bind_from_zero (here : ip.isLocal = true) (usable : settings.check = .ok ())
    (own : r.isAny = false) (begins : start < r.size) (zero : r.first.toNat = 0)
    (bound : bind ip r settings start net = .ok (c, later)) :
    (0 < start ∧ start ≤ c.port ∧ c.port ≤ r.last.toNat ∧ c.port ∉ net.listening) ∨
      c.port = net.choice ∧
        ¬ (0 < start ∧ ∃ q, start ≤ q ∧ q ≤ r.last.toNat ∧ q ∉ net.listening) := by
  obtain ⟨before, p, after, split, early, free, port, -⟩ := bind_eq_ok here usable bound
  have ends := r.first_add_size
  have unmissed : 0 ∉ before := fun mem => (early 0 mem).1 rfl
  have granted := Network.granted_free free
  rw [PortRange.candidates_eq own begins, zero, Nat.zero_add] at split
  rw [← port] at granted
  rcases split_append split with ⟨rest, first⟩ | ⟨front, eq, second⟩
  · have there : p ∈ List.range' start (r.size - start) :=
      first ▸ List.mem_append_right _ List.mem_cons_self
    rw [List.mem_range'_1] at there
    by_cases chosen : p = 0
    · rw [port, Network.granted, if_pos chosen]
      exact .inr ⟨rfl, by omega⟩
    · rw [Network.granted, if_neg chosen] at port
      have positive : 0 < start := by
        by_contra hnone
        exact unmissed (mem_before_of_lt first (by omega) (Nat.pos_of_ne_zero chosen))
      exact .inl ⟨positive, by omega, by omega, granted⟩
  · -- The listener has gone round, so all from the start on are in use.
    have chosen : p = 0 := by
      by_contra own
      refine unmissed ?_
      rw [eq]
      exact List.mem_append_right _
        (mem_before_of_lt second (Nat.zero_le 0) (Nat.pos_of_ne_zero own))
    rw [port, Network.granted, if_pos chosen]
    refine .inr ⟨rfl, ?_⟩
    rintro ⟨-, q, low, high, free⟩
    refine free (early q ?_).2
    rw [eq, List.mem_append, List.mem_range'_1]
    exact .inl (by omega)

theorem bind_inside_iff (here : ip.isLocal = true) (usable : settings.check = .ok ())
    (own : r.isAny = false) (begins : start < r.size)
    (bound : bind ip r settings start net = .ok (c, later)) :
    r.Has c.port ↔ r.first ≠ 0 ∨
      (0 < start ∧ ∃ q, start ≤ q ∧ q ≤ r.last.toNat ∧ q ∉ net.listening) ∨
      net.choice ≤ r.last.toNat := by
  by_cases zero : r.first = 0
  · have first : r.first.toNat = 0 := by rw [zero]; rfl
    rcases bind_from_zero here usable own begins first bound with
      ⟨positive, low, high, free⟩ | ⟨chosen, hnone⟩
    · exact iff_of_true ⟨by omega, high⟩ (.inr (.inl ⟨positive, c.port, low, high, free⟩))
    · rw [chosen]
      constructor
      · exact fun inside => .inr (.inr inside.2)
      · rintro (positive | found | small)
        · exact absurd zero positive
        · exact absurd found hnone
        · exact ⟨by omega, small⟩
  · obtain ⟨before, p, after, split, -, -, port, -⟩ := bind_eq_ok here usable bound
    have inside : r.Has p := by
      rw [← PortRange.mem_candidates own begins, split]
      exact List.mem_append_right _ List.mem_cons_self
    have positive : p ≠ 0 := by
      rintro rfl
      exact zero (UInt16.toNat_inj.1 (Nat.le_zero.1 inside.1))
    rw [port, Network.granted, if_neg positive]
    exact iff_of_true inside (.inl zero)

end PassiveConnection

open PassiveConnection in
/-- For a range that leaves nothing to the host by itself: a listener asks for ports of the range
only, for none of them twice and for none behind the one that it gets, and no port is too large for
a word on the way there.  It gets a port if one of the range is free, or if the range begins at 0,
and otherwise is told that the range is used up.  The port was free.  It lies in the range exactly
if the range does not begin at 0, or a port from the start on is free before the turn of 0 comes, or
the host happens to choose one of the range. -/
theorem bind_has_iff {r : PortRange}
    (own : r.isAny = false) {start : Nat} (begins : start < r.size) {ip : Ip}
    (here : ip.isLocal = true) {settings : SocketSettings} (usable : settings.check = .ok ())
    (net : Network) :
    let asked := tries net (r.candidates start)
    (asked.Nodup ∧ (∀ p ∈ asked, r.Has p) ∧
      bindFrom ip r settings net asked = bind ip r settings start net) ∧
    (∀ i < r.size, start + i < 2 * Word.bound16 ∧ (start + i) % r.size < Word.bound16 ∧
      (r.word start i).toNat = r.first.toNat + (start + i) % r.size) ∧
    ((∃ c later, bind ip r settings start net = .ok (c, later)) ↔
      r.first = 0 ∨ ∃ p, r.Has p ∧ p ∉ net.listening) ∧
    (∀ e, bind ip r settings start net = .error e →
      e = .noPortAvailable r.first.toNat r.last.toNat) ∧
    ∀ c later, bind ip r settings start net = .ok (c, later) →
      c.port ∉ net.listening ∧ later.listening = c.port :: net.listening ∧
      (r.Has c.port ↔ r.first ≠ 0 ∨
        (0 < start ∧ ∃ p, start ≤ p ∧ p ≤ r.last.toNat ∧ p ∉ net.listening) ∨
        net.choice ≤ r.last.toNat) := by
  have first_tried := tries_prefix net (r.candidates start)
  refine ⟨⟨?_, ?_, bindFrom_tries here usable _⟩, ?_, ?_, fun e => bind_eq_error here usable, ?_⟩
  · exact (r.nodup_candidates own begins).sublist first_tried.sublist
  · exact fun p mem => (r.mem_candidates own begins).1 (first_tried.subset mem)
  · intro i less
    have ends := r.first_add_size
    have last := r.last.toNat_lt
    have offset := Nat.mod_lt (start + i) r.size_pos
    unfold Word.bound16
    exact ⟨by omega, by omega, r.toNat_word start i⟩
  · rw [bind_isOk here usable own begins]
    constructor
    · rintro ⟨p, inside, free⟩
      by_cases zero : p = 0
      · subst zero
        exact .inl (UInt16.toNat_inj.1 (Nat.le_zero.1 inside.1))
      · exact .inr ⟨p, inside, fun mem => free ⟨zero, mem⟩⟩
    · rintro (zero | ⟨p, inside, free⟩)
      · refine ⟨0, ⟨?_, Nat.zero_le _⟩, fun taken => taken.1 rfl⟩
        rw [zero]
        exact Nat.le_refl 0
      · exact ⟨p, inside, fun taken => free taken.2⟩
  · intro c later bound
    obtain ⟨before, p, after, -, -, free, port, listens⟩ := bind_eq_ok here usable bound
    exact ⟨port ▸ Network.granted_free free, listens,
      bind_inside_iff here usable own begins bound⟩

theorem bind_not_has :
    ∃ c later, PassiveConnection.bind .localhost ⟨0, 5, by decide⟩ {} 0 { reach := .isolated } =
        .ok (c, later) ∧ c.port = 32768 ∧ ¬ PortRange.Has ⟨0, 5, by decide⟩ c.port := by
  have here : Ip.localhost.isLocal = true := by decide
  have usable : SocketSettings.check {} = .ok () := rfl
  have begins : 0 < PortRange.size ⟨0, 5, by decide⟩ := by decide
  have holds := bind_has_iff (by decide) begins here
    usable { reach := .isolated }
  obtain ⟨-, -, succeeds, -, gets⟩ := holds
  obtain ⟨c, later, bound⟩ := succeeds.2 (.inl rfl)
  have port : c.port = 32768 := by
    cases bound
    rfl
  refine ⟨c, later, bound, port, fun inside => ?_⟩
  rw [port] at inside
  exact absurd inside.2 (by decide)

end Archivist
