import Archivist.Proofs.Control.Station
import Mathlib.Data.List.Range
set_option autoImplicit false

namespace Archivist.Station

open Server (Moves)

variable {σ : Type} {w : Worker σ} {s : Station σ} {stream : List UInt8}

/-- What the reader has still to find, with the end of the stream. -/
def ahead (s : Station σ) : List RequestFrame × Option TransferError × List UInt8 :=
  match s.readTo with
  | some e => ([], e, s.unread)
  | none => Wire.readFrames Wire.getRequestFrame s.unread

/-- No request is lost on the way, and the queue is never longer than it may be. -/
structure Reads (stream : List UInt8) (s : Station σ) : Prop where
  all : Wire.readFrames Wire.getRequestFrame stream =
    (s.taken ++ s.queue ++ s.hand.toList ++ s.ahead.1, s.ahead.2)
  room : s.queue.length ≤ capacity

theorem read_eq (s : Station σ) :
    s.read = { s with
      hand := s.read.hand, unread := s.read.unread, readTo := s.read.readTo } := by
  unfold Station.read
  split
  · split <;> rfl
  · rfl

theorem pass_eq (s : Station σ) :
    s.pass = { s with hand := s.pass.hand, queue := s.pass.queue } := by
  unfold Station.pass
  split
  · split <;> rfl
  · rfl

theorem Reads.read (h : Reads stream s) : Reads stream s.read := by
  unfold Station.read
  split
  · rename_i empty going
    have hahead : s.ahead = Wire.readFrames Wire.getRequestFrame s.unread := by
      rw [ahead, going]
    have all := h.all
    split
    · rename_i f rest read
      refine ⟨?_, h.room⟩
      rw [hahead, Wire.readFrames_of_some read, empty] at all
      rw [all]
      simp [ahead, going]
    · rename_i rest read
      refine ⟨?_, h.room⟩
      rw [hahead, Wire.readFrames_of_none read] at all
      exact all
    · rename_i e rest read
      refine ⟨?_, h.room⟩
      rw [hahead, Wire.readFrames_of_error read] at all
      exact all
  · exact h

theorem Reads.pass (h : Reads stream s) : Reads stream s.pass := by
  unfold Station.pass
  split
  · rename_i f held
    split
    · rename_i room
      have all := h.all
      rw [held] at all
      refine ⟨?_, ?_⟩
      · rw [all]
        simp [ahead]
      · rw [List.length_append]
        exact room
    · exact h
  · exact h

theorem Reads.take (h : Reads stream s) {f : RequestFrame} {queue : List RequestFrame}
    (next : s.queue = f :: queue) {server : Server σ} {begun : List Nat}
    {written : List (Nat × ResponseFrame)} :
    Reads stream { s with server, queue, taken := s.taken ++ [f], begun, written } := by
  have all := h.all
  have room := h.room
  rw [next] at all room
  refine ⟨?_, ?_⟩
  · rw [all]
    simp [ahead]
  · rw [List.length_cons] at room
    exact Nat.le_of_succ_le room

/-- Every request that was taken up is answered once, unless it is the transfer that is running. -/
structure Answers (s : Station σ) : Prop where
  places : (s.answered ++ s.current).Perm (List.range s.taken.length)
  ids : ∀ k r, (k, r) ∈ s.written → ∃ f, s.taken[k]? = some f ∧ f.id = r.id
  running : ∀ id, s.server.running = some id →
    ∃ k f, s.begun.getLast? = some k ∧ s.taken[k]? = some f ∧ f.id = id
  begun : ∀ k ∈ s.begun, ∃ f, s.taken[k]? = some f ∧ Moves f.request
  refused : ∀ k f, s.taken[k]? = some f → Moves f.request → k ∉ s.begun →
    ∃ other, (k, ⟨f.id, Server.busy other⟩) ∈ s.written
  order : (s.answered.filter fun k => k ∉ s.begun).Pairwise (· < ·)

namespace Answers

theorem start (worker : σ) (stream : List UInt8) : Answers (Station.start worker stream) where
  places := .refl _
  ids _ _ mem := by cases mem
  running _ eq := by cases eq
  begun _ mem := by cases mem
  refused _ _ hget := by cases hget
  order := .nil

theorem lt_taken (h : Answers s) {k : Nat} (mem : k ∈ s.answered) : k < s.taken.length :=
  List.mem_range.1 (h.places.mem_iff.1 (List.mem_append_left _ mem))

theorem begun_lt (h : Answers s) {k : Nat} (mem : k ∈ s.begun) : k < s.taken.length := by
  obtain ⟨f, hget, -⟩ := h.begun k mem
  exact (List.getElem?_eq_some_iff.1 hget).1

theorem kept {k : Nat} {f g : RequestFrame} (hget : s.taken[k]? = some f) :
    (s.taken ++ [g])[k]? = some f := by
  rw [List.getElem?_append_left (List.getElem?_eq_some_iff.1 hget).1, hget]

theorem current_of_idle (idle : s.server.running = none) : s.current = [] := by
  simp [current, idle]

theorem getElem?_taken {taken : List RequestFrame} {k : Nat} {f g : RequestFrame}
    (hget : (taken ++ [f])[k]? = some g) : taken[k]? = some g ∨ k = taken.length ∧ g = f := by
  rw [List.getElem?_append] at hget
  split at hget
  · exact .inl hget
  · rename_i late
    obtain ⟨bound, eq⟩ := List.getElem?_eq_some_iff.1 hget
    rw [List.length_singleton] at bound
    refine .inr ⟨by omega, ?_⟩
    rw [← eq, List.getElem_singleton]

theorem started (h : Answers s) {f : RequestFrame} {server : Server σ} {queue : List RequestFrame}
    (idle : s.server.running = none) (running : server.running = some f.id)
    (moves : Moves f.request) :
    Answers { s with
      server, queue, taken := s.taken ++ [f]
      begun := s.begun ++ [s.taken.length] } := by
  have new : (s.taken ++ [f])[s.taken.length]? = some f := by simp
  refine ⟨?_, ?_, ?_, ?_, ?_, ?_⟩
  · have now : current { s with
        server, queue, taken := s.taken ++ [f]
        begun := s.begun ++ [s.taken.length] } = [s.taken.length] := by
      simp [current, running]
    have places := h.places
    rw [current_of_idle idle, List.append_nil] at places
    rw [now, List.length_append, List.length_singleton, List.range_succ]
    exact places.append_right _
  · intro k r mem
    obtain ⟨g, hget, id⟩ := h.ids k r mem
    exact ⟨g, kept hget, id⟩
  · intro id now
    rw [running, Option.some.injEq] at now
    exact ⟨_, f, by simp, new, now⟩
  · intro k mem
    rcases List.mem_append.1 mem with old | last
    · obtain ⟨g, hget, moves⟩ := h.begun k old
      exact ⟨g, kept hget, moves⟩
    · rw [List.mem_singleton.1 last]
      exact ⟨f, new, moves⟩
  · intro k g hget moves unbegun
    rw [List.mem_append, not_or] at unbegun
    rcases getElem?_taken hget with old | ⟨last, -⟩
    · exact h.refused k g old moves unbegun.1
    · exact absurd (List.mem_singleton.2 last) unbegun.2
  · have same : s.answered.filter (fun k => k ∉ s.begun ++ [s.taken.length]) =
        s.answered.filter fun k => k ∉ s.begun := by
      apply List.filter_congr
      intro k mem
      have ne := Nat.ne_of_lt (h.lt_taken mem)
      simp [ne]
    change (s.answered.filter fun k => k ∉ s.begun ++ [s.taken.length]).Pairwise (· < ·)
    rw [same]
    exact h.order

theorem replied (h : Answers s) {f : RequestFrame} {server : Server σ} {queue : List RequestFrame}
    {response : Response} (same : server.running = s.server.running)
    (refused : Moves f.request → ∃ other, response = Server.busy other) :
    Answers { s with
      server, queue, taken := s.taken ++ [f]
      written := s.written ++ [(s.taken.length, ⟨f.id, response⟩)] } := by
  have fresh : s.taken.length ∉ s.begun := fun mem => Nat.lt_irrefl _ (h.begun_lt mem)
  have new : (s.taken ++ [f])[s.taken.length]? = some f := by simp
  have hanswered : answered { s with
      server, queue, taken := s.taken ++ [f]
      written := s.written ++ [(s.taken.length, ⟨f.id, response⟩)] } =
        s.answered ++ [s.taken.length] := by
    simp [answered]
  refine ⟨?_, ?_, ?_, ?_, ?_, ?_⟩
  · have hcurrent : current { s with
        server, queue, taken := s.taken ++ [f]
        written := s.written ++ [(s.taken.length, ⟨f.id, response⟩)] } = s.current := by
      simp [current, same]
    rw [hanswered, hcurrent, List.length_append, List.length_singleton, List.range_succ,
      List.append_assoc]
    have swapped : (s.answered ++ ([s.taken.length] ++ s.current)).Perm
        (s.answered ++ (s.current ++ [s.taken.length])) := List.perm_append_comm.append_left _
    rw [← List.append_assoc s.answered s.current] at swapped
    exact swapped.trans (h.places.append_right _)
  · intro k r mem
    rcases List.mem_append.1 mem with old | last
    · obtain ⟨g, hget, id⟩ := h.ids k r old
      exact ⟨g, kept hget, id⟩
    · cases List.mem_singleton.1 last
      exact ⟨f, new, rfl⟩
  · intro id now
    obtain ⟨k, g, last, hget, hnumber⟩ := h.running id (same ▸ now)
    exact ⟨k, g, last, kept hget, hnumber⟩
  · intro k mem
    obtain ⟨g, hget, moves⟩ := h.begun k mem
    exact ⟨g, kept hget, moves⟩
  · intro k g hget moves unbegun
    rcases getElem?_taken hget with old | ⟨rfl, rfl⟩
    · obtain ⟨other, mem⟩ := h.refused k g old moves unbegun
      exact ⟨other, List.mem_append_left _ mem⟩
    · obtain ⟨other, rfl⟩ := refused moves
      exact ⟨other, List.mem_append_right _ (List.mem_singleton_self _)⟩
  · rw [hanswered, List.filter_append, List.filter_cons, if_pos (by simpa using fresh)]
    refine List.pairwise_append.2 ⟨h.order, List.pairwise_singleton _ _, ?_⟩
    intro i early k last
    rw [List.filter_nil, List.mem_singleton] at last
    rw [last]
    exact h.lt_taken (List.mem_of_mem_filter early)

theorem completed (h : Answers s) {server : Server σ} {id : UInt64} {response : Response}
    (running : s.server.running = some id) (idle : server.running = none) :
    Answers { s with
      server, written := s.written ++ [(s.begun.getLastD 0, ⟨id, response⟩)] } := by
  obtain ⟨k, f, last, hget, same⟩ := h.running id running
  have place : s.begun.getLastD 0 = k := by
    rw [List.getLastD_eq_getLast?, last]
    rfl
  have mem : k ∈ s.begun := List.mem_of_getLast? last
  have hcurrent : s.current = [k] := by
    rw [current, if_pos (by simp [running]), place]
  rw [place]
  have hanswered : answered { s with server, written := s.written ++ [(k, ⟨id, response⟩)] } =
      s.answered ++ [k] := by
    simp [answered]
  refine ⟨?_, ?_, ?_, h.begun, ?_, ?_⟩
  · have places := h.places
    rw [hcurrent] at places
    rw [hanswered, current_of_idle idle, List.append_nil]
    exact places
  · intro i r there
    rcases List.mem_append.1 there with old | new
    · exact h.ids i r old
    · cases List.mem_singleton.1 new
      exact ⟨f, hget, same⟩
  · intro other now
    rw [idle] at now
    cases now
  · intro i g there moves unbegun
    obtain ⟨other, mem⟩ := h.refused i g there moves unbegun
    exact ⟨other, List.mem_append_left _ mem⟩
  · rw [hanswered, List.filter_append, List.filter_cons, if_neg (by simpa using mem),
      List.filter_nil, List.append_nil]
    exact h.order

theorem of_reading (h : Answers s) {unread : List UInt8} {hand : Option RequestFrame}
    {queue : List RequestFrame} {readTo : Option (Option TransferError)} :
    Answers { s with unread, hand, queue, readTo } :=
  ⟨h.places, h.ids, h.running, h.begun, h.refused, h.order⟩

theorem congr (h : Answers s) {server : Server σ} {closed : Bool}
    (same : server.running = s.server.running) : Answers { s with server, closed } := by
  refine ⟨?_, h.ids, fun id now => h.running id (same ▸ now), h.begun, h.refused, h.order⟩
  have hcurrent : current { s with server, closed } = s.current := by simp [current, same]
  rw [hcurrent]
  exact h.places

theorem take (h : Answers s) (stands : (s.take w).server.ended = none) : Answers (s.take w) := by
  unfold Station.take at stands ⊢
  split
  · exact h
  · rename_i f queue next
    rw [next] at stands
    dsimp only at stands
    have hears := Server.hears w s.server f
    generalize s.server.handle w (.received f) = out at hears stands ⊢
    cases hears with
    | started starts idle =>
      dsimp only
      rw [if_pos starts, List.map_nil, List.append_nil]
      exact h.started idle rfl (Server.moves_of_starts starts)
    | answered response worker still refused =>
      dsimp only
      rw [if_neg (by simp [still]), List.map_singleton]
      refine h.replied rfl fun moves => ?_
      obtain ⟨other, -, eq, -⟩ := refused moves
      exact ⟨other, eq⟩
    | broken later ended =>
      have hnone : later.ended = none := stands
      simp [hnone] at ended

theorem settle (h : Answers s) {look : σ → Option (Except TransferError TransferStatus) × σ}
    (stands : (s.settle w look).server.ended = none) : Answers (s.settle w look) := by
  unfold Station.settle at stands ⊢
  have settles := Server.settles w s.server look
  generalize s.server.settle w look = out at settles stands ⊢
  cases settles with
  | goesOn worker =>
    dsimp only
    rw [List.map_nil, List.append_nil]
    exact h.congr rfl
  | ends id result worker running =>
    dsimp only
    rw [List.map_singleton]
    exact h.completed running rfl
  | broken later ended =>
    have hnone : later.ended = none := stands
    simp [hnone] at ended

end Answers
end Archivist.Station
