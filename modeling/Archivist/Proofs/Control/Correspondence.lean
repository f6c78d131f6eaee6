import Archivist.Control.Canned
import Archivist.Proofs.Control.Transfers
import Mathlib.Data.List.Induction
set_option autoImplicit false

/-!
# A client and whoever answers it

A `Correspondence` is a client with a peer that answers each request once, when it likes and in
whatever order.  The client makes a request, or looks for the answer to one that it has made and not
got yet; while the answer has not come it looks again later.  A call is a request and then nothing
but looks for its answer.  No answer is lost on the way, none is given out twice, and each is given
out for the number of its request.
-/

namespace Archivist

structure Correspondence where
  client : Client
  /-- The numbers of the requests whose answers the client has not got. -/
  unfinished : List UInt64 := []
  /-- What the peer has read and not answered. -/
  asked : List RequestFrame := []
  arriving : Client.Arrivals := []
  answers : List (UInt64 × Response) := []
  got : List (UInt64 × Response) := []
  failed : List (UInt64 × TransferError) := []

inductive Turn where
  | request (request : Request)
  | answer (f : RequestFrame) (r : Response)
  | look (id : UInt64)

namespace Correspondence

open Client (carry Apart)

variable {e : Correspondence}

def start (node : String) : Correspondence := { client := { node } }

def request (e : Correspondence) (request : Request) : Correspondence :=
  if e.client.nextId ∈ e.unfinished then e
  else
    match e.client.send request with
    | (client, _, .error _) => { e with client }
    | (client, id, .ok bytes) =>
      { e with
        client
        unfinished := e.unfinished ++ [id]
        asked := e.asked ++ (Wire.readFrames Wire.getRequestFrame bytes).1 }

def answer (e : Correspondence) (f : RequestFrame) (r : Response) : Correspondence :=
  if f ∈ e.asked then
    match Wire.frame (Wire.putResponseFrame ⟨f.id, r⟩) with
    | .ok bytes =>
      { e with
        asked := e.asked.erase f
        arriving := e.arriving ++ Client.arrivals bytes
        answers := e.answers ++ [(f.id, r)] }
    | .error _ => e
  else e

def look (e : Correspondence) (id : UInt64) : Correspondence :=
  if id ∈ e.unfinished then
    match e.client.reply id e.arriving with
    | (client, none, arriving) => { e with client, arriving }
    | (client, some (.ok r), arriving) =>
      { e with
        client, arriving
        unfinished := e.unfinished.erase id
        got := e.got ++ [(id, r)] }
    | (client, some (.error x), arriving) =>
      { e with
        client, arriving
        unfinished := e.unfinished.erase id
        failed := e.failed ++ [(id, x)] }
  else e

def step (e : Correspondence) : Turn → Correspondence
  | .request request => e.request request
  | .answer f r => e.answer f r
  | .look id => e.look id

def run (e : Correspondence) (ts : List Turn) : Correspondence := ts.foldl step e

def coming (e : Correspondence) : List (UInt64 × Response) :=
  e.arriving.filterMap fun
    | .ok f => some (f.id, f.response)
    | .error _ => none

/-- The answers that the client has not got, set aside or on the stream. -/
def waiting (e : Correspondence) : List (UInt64 × Response) := e.client.parked ++ e.coming

theorem coming_of_carry {arriving : Client.Arrivals} {answers : List (UInt64 × Response)}
    (eq : arriving = answers.map carry) :
    (arriving.filterMap fun
      | .ok f => some (f.id, f.response)
      | .error _ => none) = answers := by
  subst eq
  induction answers with
  | nil => rfl
  | cons a answers ih =>
    rw [List.map_cons]
    unfold carry at ih ⊢
    rw [List.filterMap_cons, ih]

theorem readFrames_of_frame {f : RequestFrame} {bytes : List UInt8}
    (framed : Wire.frame (Wire.putRequestFrame f) = .ok bytes) :
    (Wire.readFrames Wire.getRequestFrame bytes).1 = [⟨f.id, f.request.zoneless⟩] := by
  have nothing : Wire.readFrame Wire.getRequestFrame [] = (.ok none, []) := rfl
  rw [Wire.readFrames_of_some (Wire.readFrame_of_frame framed), Wire.readFrames_of_none nothing]

/-- Every answer is with the client, set aside, on the stream or still to be given. -/
structure Kept (e : Correspondence) : Prop where
  unfailed : e.failed = []
  carried : e.arriving = e.coming.map carry
  whole : (e.got ++ e.waiting).Perm e.answers
  numbers : (e.asked.map (·.id) ++ e.waiting.map (·.1)).Perm e.unfinished
  apart : e.unfinished.Nodup

namespace Kept

theorem of_carried {coming : List (UInt64 × Response)} (carried : e.arriving = coming.map carry)
    (unfailed : e.failed = [])
    (whole : (e.got ++ (e.client.parked ++ coming)).Perm e.answers)
    (numbers : (e.asked.map (·.id) ++ (e.client.parked ++ coming).map (·.1)).Perm e.unfinished)
    (apart : e.unfinished.Nodup) : Kept e := by
  have same : e.coming = coming := coming_of_carry carried
  subst same
  exact ⟨unfailed, carried, whole, numbers, apart⟩

theorem start (node : String) : Kept (start node) := ⟨rfl, rfl, .refl _, .refl _, .nil⟩

theorem client_apart (h : Kept e) : e.client.Apart e.coming :=
  (h.numbers.nodup_iff.2 h.apart).of_append_right

theorem request (h : Kept e) (request : Request) : Kept (e.request request) := by
  unfold Correspondence.request
  split
  · exact h
  · rename_i new
    cases framed : Wire.frame (Wire.putRequestFrame ⟨e.client.nextId, request⟩) with
    | error x =>
      rw [Client.send_of_error framed]
      exact ⟨h.unfailed, h.carried, h.whole, h.numbers, h.apart⟩
    | ok bytes =>
      rw [Client.send_of_frame framed]
      dsimp only
      rw [readFrames_of_frame framed]
      refine ⟨h.unfailed, h.carried, h.whole, ?_, ?_⟩
      · rw [List.map_append, List.map_singleton, List.append_assoc, List.singleton_append]
        exact List.perm_middle.trans
          ((h.numbers.cons _).trans (List.perm_append_singleton _ _).symm)
      · exact (List.perm_append_singleton _ _).nodup_iff.2 (List.nodup_cons.2 ⟨new, h.apart⟩)

theorem answer (h : Kept e) (f : RequestFrame) (r : Response) : Kept (e.answer f r) := by
  unfold Correspondence.answer
  split
  · rename_i asked
    split
    · rename_i bytes framed
      rw [Client.arrivals_of_frame framed]
      have carried : e.arriving ++ [.ok ⟨f.id, r⟩] = (e.coming ++ [(f.id, r)]).map carry := by
        rw [List.map_append, ← h.carried]
        rfl
      have more : e.client.parked ++ (e.coming ++ [(f.id, r)]) = e.waiting ++ [(f.id, r)] :=
        (List.append_assoc _ _ _).symm
      refine of_carried carried h.unfailed ?_ ?_ h.apart
      · rw [more, ← List.append_assoc]
        exact h.whole.append_right _
      · rw [more, List.map_append, ← List.append_assoc]
        have left : (e.asked.map (·.id)).Perm (f.id :: (e.asked.erase f).map (·.id)) :=
          (List.perm_cons_erase asked).map RequestFrame.id
        have moved := (left.append_right (e.waiting.map (·.1))).symm.trans h.numbers
        exact (List.perm_append_singleton _ _).trans moved
    · exact h
  · exact h

theorem look (h : Kept e) (id : UInt64) : Kept (e.look id) := by
  unfold Correspondence.look
  split
  · rw [h.carried]
    rcases Client.reply_carry h.client_apart id with
      ⟨r, parked, later, eq, perm⟩ | ⟨missing, parked, eq, perm⟩
    · rw [eq]
      refine of_carried rfl h.unfailed ?_ ?_ (h.apart.erase _)
      · have moved : (e.got ++ [(id, r)] ++ (parked ++ later)).Perm (e.got ++ e.waiting) := by
          rw [List.append_assoc, List.singleton_append]
          exact perm.symm.append_left e.got
        exact moved.trans h.whole
      · have moved := (perm.map Prod.fst).append_left (e.asked.map (·.id))
        have out := ((moved.symm.trans h.numbers).symm.trans List.perm_middle).erase id
        rw [List.erase_cons_head] at out
        exact out.symm
    · rw [eq]
      refine of_carried (List.map_nil).symm h.unfailed ?_ ?_ h.apart
      · rw [List.append_nil]
        exact (perm.symm.append_left e.got).trans h.whole
      · rw [List.append_nil]
        exact ((perm.map Prod.fst).symm.append_left _).trans h.numbers
  · exact h

theorem step (h : Kept e) (t : Turn) : Kept (e.step t) := by
  cases t with
  | request request => exact h.request request
  | answer f r => exact h.answer f r
  | look id => exact h.look id

theorem run (h : Kept e) (ts : List Turn) : Kept (e.run ts) := by
  induction ts generalizing e with
  | nil => exact h
  | cons t ts ih => exact ih (h.step t)

end Kept

structure Numbered (turns : Nat) (e : Correspondence) : Prop where
  next : e.client.nextId.toNat ≤ turns + 1
  below : ∀ id ∈ e.unfinished, id.toNat < e.client.nextId.toNat

theorem Numbered.fresh {turns : Nat} (h : Numbered turns e) : e.client.nextId ∉ e.unfinished :=
  fun mem => Nat.lt_irrefl _ (h.below _ mem)

theorem Numbered.request {turns : Nat} (h : Numbered turns e) (few : turns + 2 < Word.bound64)
    (request : Request) : Numbered (turns + 1) (e.request request) := by
  have up : (e.client.nextId + 1).toNat = e.client.nextId.toNat + 1 := by
    have next := h.next
    rw [UInt64.toNat_add, UInt64.toNat_one]
    exact Nat.mod_eq_of_lt (by unfold Word.bound64 at few; omega)
  have next : (e.client.nextId + 1).toNat ≤ turns + 1 + 1 := up ▸ Nat.succ_le_succ h.next
  have below : ∀ id ∈ e.unfinished, id.toNat < (e.client.nextId + 1).toNat :=
    fun id mem => up ▸ Nat.lt_succ_of_lt (h.below id mem)
  unfold Correspondence.request
  rw [if_neg h.fresh]
  cases framed : Wire.frame (Wire.putRequestFrame ⟨e.client.nextId, request⟩) with
  | error x =>
    rw [Client.send_of_error framed]
    exact ⟨next, below⟩
  | ok bytes =>
    rw [Client.send_of_frame framed]
    refine ⟨next, fun id mem => ?_⟩
    rcases List.mem_append.1 mem with old | new
    · exact below id old
    · rw [List.mem_singleton.1 new]
      exact up ▸ Nat.lt_succ_self _

theorem Numbered.step {turns : Nat} (h : Numbered turns e) (few : turns + 2 < Word.bound64)
    (t : Turn) : Numbered (turns + 1) (e.step t) := by
  have next := Nat.le_succ_of_le h.next
  cases t with
  | request request => exact h.request few request
  | answer f r =>
    change Numbered _ (e.answer f r)
    unfold Correspondence.answer
    split
    · split <;> exact ⟨next, h.below⟩
    · exact ⟨next, h.below⟩
  | look id =>
    have same := Client.reply_nextId e.client id e.arriving
    change Numbered _ (e.look id)
    unfold Correspondence.look
    split
    · split
      all_goals
        rename_i eq
        rw [eq] at same
        dsimp only at same
        refine ⟨same ▸ next, fun other mem => same ▸ h.below other ?_⟩
      · exact mem
      · exact List.mem_of_mem_erase mem
      · exact List.mem_of_mem_erase mem
    · exact ⟨next, h.below⟩

theorem Numbered.run {turns : Nat} (h : Numbered turns e) (ts : List Turn)
    (few : turns + ts.length + 1 < Word.bound64) : Numbered (turns + ts.length) (e.run ts) := by
  induction ts generalizing e turns with
  | nil => exact h
  | cons t ts ih =>
    rw [List.length_cons] at few ⊢
    have later := ih (h.step (by omega) t) (by omega)
    rwa [Nat.add_assoc, Nat.add_comm 1] at later

/-- The answer to a request that is not finished is still to be given, or it is the only one under
its number, looking for it finds it and the request is finished with it. -/
theorem Kept.reply (h : Kept e) {id : UInt64} (unfinished : id ∈ e.unfinished) :
    (∃ f ∈ e.asked, f.id = id) ∧ (e.client.reply id e.arriving).2.1 = none ∨
      ∃ r, (id, r) ∈ e.waiting ∧ (∀ r', (id, r') ∈ e.waiting → r' = r) ∧
        (e.client.reply id e.arriving).2.1 = some (.ok r) ∧
        ∀ (σ : Type) (p : Peer σ) (peer : σ),
          (Conversation.finish p ⟨e.client, peer, e.arriving⟩ id).2 =
            some (e.client.conclude r) := by
  rw [h.carried]
  rcases Client.reply_carry h.client_apart id with
    ⟨r, parked, later, eq, perm⟩ | ⟨missing, parked, eq, -⟩
  · have mem : (id, r) ∈ e.waiting := perm.mem_iff.2 List.mem_cons_self
    refine .inr ⟨r, mem, fun r' other => h.client_apart.eq other mem, ?_, ?_⟩
    · rw [eq]
    · intro σ p peer
      rw [Conversation.finish_eq (Conversation.await_eq eq)]
      rfl
  · refine .inl ⟨?_, ?_⟩
    · rcases List.mem_append.1 (h.numbers.mem_iff.2 unfinished) with asked | waiting
      · exact List.mem_map.1 asked
      · exact absurd waiting missing
    · rw [eq]

theorem Kept.nothing_left (h : Kept e) (finished : e.unfinished = []) :
    e.client.parked = [] ∧ e.arriving = [] := by
  have numbers := h.numbers
  rw [finished] at numbers
  have waiting : e.waiting = [] := List.map_eq_nil_iff.1 (List.append_eq_nil_iff.1 numbers.eq_nil).2
  obtain ⟨parked, coming⟩ := List.append_eq_nil_iff.1 waiting
  refine ⟨parked, ?_⟩
  rw [h.carried, coming, List.map_nil]

theorem Kept.transfer (h : Kept e) (new : e.client.nextId ∉ e.unfinished) {σ : Type} (w : Worker σ)
    {s : Server σ} (idle : s.running = none) (stands : s.ended = none) {request : Request}
    (moves : Server.Moves request) {bytes reply : List UInt8}
    (framed : Wire.frame (Wire.putRequestFrame ⟨e.client.nextId, request⟩) = .ok bytes)
    {r : Except TransferError TransferStatus} (ends : w.outcome s.worker request = some r)
    (answered : Wire.frame (Wire.putResponseFrame ⟨e.client.nextId, .ofResult r⟩) = .ok reply) :
    ∃ ended, (Conversation.transfer (Server.peer w) ⟨e.client, s, e.arriving⟩ request).2 =
        some ended ∧
      (∀ status, r = .ok status → ended = .ok status) ∧
      ∀ x, r = .error x → ∃ y, ended = .error y ∧ y.remoteKind = x.remoteKind ∧
        y.isUnreachable = x.isUnreachable := by
  have unknown : e.client.nextId ∉ e.waiting.map (·.1) :=
    fun mem => new (h.numbers.mem_iff.1 (List.mem_append_right _ mem))
  refine ⟨_, Conversation.transfer_eq (c := ⟨e.client, s, e.arriving⟩) h.carried h.client_apart
    unknown idle stands moves framed ends answered, ?_, ?_⟩
  · rintro status rfl
    rfl
  · rintro x rfl
    exact Client.conclude_ofError e.client x

end Correspondence

/-- Whatever the client asks and in whatever order the peer answers: no look for an answer fails;
what the peer has answered is with the client, set aside or on the stream, each once; looking for an
answer finds the one under the number of the request as soon as it has been given, and finishing the
request says what that answer means; and when every request is finished nothing is left.  A new
request gets a number that is not in use, at least until the numbers come round, and the peer reads
it as it was made.  If it is a transfer and the peer a node that is idle, the coordinator learns how
it has ended. -/
theorem correspondence_run_got (node : String) (ts : List Turn) :
    let e := (Correspondence.start node).run ts
    e.failed = [] ∧
      (e.got ++ e.waiting).Perm e.answers ∧
      (e.asked.map (·.id) ++ e.waiting.map (·.1)).Perm e.unfinished ∧ e.unfinished.Nodup ∧
      (∀ id ∈ e.unfinished,
        (∃ f ∈ e.asked, f.id = id) ∧ (e.client.reply id e.arriving).2.1 = none ∨
          ∃ r, (id, r) ∈ e.waiting ∧ (∀ r', (id, r') ∈ e.waiting → r' = r) ∧
            (e.client.reply id e.arriving).2.1 = some (.ok r) ∧
            ∀ (σ : Type) (p : Peer σ) (peer : σ),
              (Conversation.finish p ⟨e.client, peer, e.arriving⟩ id).2 =
                some (e.client.conclude r)) ∧
      (e.unfinished = [] → e.client.parked = [] ∧ e.arriving = []) ∧
      (ts.length + 1 < Word.bound64 → e.client.nextId ∉ e.unfinished) ∧
      ∀ request bytes, e.client.nextId ∉ e.unfinished →
        Wire.frame (Wire.putRequestFrame ⟨e.client.nextId, request⟩) = .ok bytes →
        (Wire.readFrames Wire.getRequestFrame bytes).1 = [⟨e.client.nextId, request.zoneless⟩] ∧
          ∀ (σ : Type) (w : Worker σ) (s : Server σ) r reply, s.running = none → s.ended = none →
            Server.Moves request → w.outcome s.worker request = some r →
            Wire.frame (Wire.putResponseFrame ⟨e.client.nextId, .ofResult r⟩) = .ok reply →
            ∃ ended, (Conversation.transfer (Server.peer w) ⟨e.client, s, e.arriving⟩ request).2 =
                some ended ∧
              (∀ status, r = .ok status → ended = .ok status) ∧
              ∀ x, r = .error x → ∃ y, ended = .error y ∧ y.remoteKind = x.remoteKind ∧
                y.isUnreachable = x.isUnreachable := by
  have kept := (Correspondence.Kept.start node).run ts
  have one : (Correspondence.start node).client.nextId.toNat ≤ 0 + 1 := Nat.le_refl _
  have numbered : Correspondence.Numbered 0 (Correspondence.start node) :=
    ⟨one, fun _ mem => (List.not_mem_nil mem).elim⟩
  refine ⟨kept.unfailed, kept.whole, kept.numbers, kept.apart, fun id => kept.reply,
    kept.nothing_left, ?_, ?_⟩
  · intro few
    exact (numbered.run ts (by rwa [Nat.zero_add])).fresh
  · intro request bytes new framed
    refine ⟨Correspondence.readFrames_of_frame framed, ?_⟩
    intro σ w s r reply idle stands moves ends answered
    exact kept.transfer new w idle stands moves framed ends answered

def crossed : List Turn :=
  [.request (.sendFile "/rls/a" .binary 0 false), .request .status,
    .answer ⟨2, .status⟩ (.status ⟨0, 0, 0, false⟩), .look 1,
    .answer ⟨1, .sendFile "/rls/a" .binary 0 false⟩ (.status ⟨5, 3, 8, true⟩), .look 1, .look 2]

def farNode : Server CannedWorker :=
  { worker := { tables := { receives := [("b", .fails (.connectionRefused "n2"))] } } }

theorem correspondence_run_crossed :
    ((Correspondence.start "n1").run (crossed.take 4)).client.parked =
        [(2, .status ⟨0, 0, 0, false⟩)] ∧
      ((Correspondence.start "n1").run crossed).got =
        [(1, .status ⟨5, 3, 8, true⟩), (2, .status ⟨0, 0, 0, false⟩)] ∧
      ((Correspondence.start "n1").run crossed).client.parked = [] ∧
      ∃ y, (Conversation.transfer (Server.peer CannedWorker.worker)
          ⟨((Correspondence.start "n1").run crossed).client, farNode,
            ((Correspondence.start "n1").run crossed).arriving⟩
          (.receiveFile "/rls" .binary "b" 0)).2 = some (.error y) ∧ y.isUnreachable = true := by
  obtain ⟨-, -, -, -, -, nothing, fresh, later⟩ := correspondence_run_got "n1" crossed
  have finished : ((Correspondence.start "n1").run crossed).unfinished = [] := by decide +kernel
  have third : ((Correspondence.start "n1").run crossed).client.nextId = 3 := by decide +kernel
  refine ⟨by decide +kernel, by decide +kernel, (nothing finished).1, ?_⟩
  obtain ⟨-, served⟩ := later (.receiveFile "/rls" .binary "b" 0) _ (fresh (by decide +kernel))
    (if_neg (by rw [third]; decide +kernel))
  obtain ⟨ended, eq, -, failed⟩ := served CannedWorker CannedWorker.worker farNode
    (.error (.connectionRefused "n2")) _ rfl rfl trivial (by decide +kernel)
    (if_neg (by rw [third]; decide +kernel))
  obtain ⟨y, rfl, -, far⟩ := failed _ rfl
  exact ⟨y, eq, far⟩

end Archivist
