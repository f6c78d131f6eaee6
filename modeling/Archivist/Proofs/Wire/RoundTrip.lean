import Archivist.Wire.Frame
set_option autoImplicit false

namespace Archivist

/-- An address as it travels. -/
def SocketAddress.zoneless : SocketAddress → SocketAddress
  | .v4 a b c d port => .v4 a b c d port
  | .v6 groups _ _ port => .v6 groups 0 0 port

def DataChannel.zoneless : DataChannel → DataChannel
  | .passive => .passive
  | .active address => .active address.zoneless

def Request.zoneless : Request → Request
  | .openChannel channel => .openChannel channel.zoneless
  | r => r

namespace Wire

theorem getNat_putTag {n : Nat} (h : n < 4294967296) (rest : Bytes) :
    getNat 4 (putTag n ++ rest) = some (n, rest) :=
  getNat_leBytes 4 n h rest

@[simp] theorem getMode_put (m : TransferMode) (rest : Bytes) :
    getMode (putMode m ++ rest) = some (m, rest) := by
  cases m with
  | ascii => simp [getMode, putMode, getNat_putTag]
  | binary => simp [getMode, putMode, getNat_putTag]

theorem pair_eq (g : UInt16) : (g >>> 8).toUInt8.toUInt16 * 256 + g.toUInt8.toUInt16 = g := by
  apply UInt16.toNat_inj.1
  have bound := g.toNat_lt
  simp only [UInt16.toNat_add, UInt16.toNat_mul, UInt8.toNat_toUInt16, UInt16.toNat_toUInt8,
    UInt16.toNat_shiftRight, UInt16.reduceToNat, Nat.shiftRight_eq_div_pow, Nat.reduceMod,
    Nat.reducePow]
  omega

theorem length_putGroups (groups : Vector UInt16 8) : (putGroups groups).length = 16 := by
  have sum : ∀ gs : List UInt16,
      (gs.flatMap fun g : UInt16 => [(g >>> 8).toUInt8, g.toUInt8]).length = 2 * gs.length := by
    intro gs
    induction gs with
    | nil => rfl
    | cons g gs ih =>
      rw [List.flatMap_cons, List.length_append, ih, List.length_cons]
      simp only [List.length_cons, List.length_nil]
      omega
  rw [putGroups, sum, Vector.length_toList]

theorem pairUp_putGroups (groups : Vector UInt16 8) : pairUp (putGroups groups) = groups.toList := by
  unfold putGroups
  induction groups.toList with
  | nil => rfl
  | cons g gs ih =>
    rw [List.flatMap_cons, List.cons_append, List.cons_append, List.nil_append, pairUp, ih, pair_eq]

theorem vector8?_toList (groups : Vector UInt16 8) :
    Address.vector8? groups.toList = some groups := by
  rw [Address.vector8?, dif_pos groups.length_toList]
  cases groups
  simp [Vector.toList]

theorem getBytes_putGroups (groups : Vector UInt16 8) (rest : Bytes) :
    getBytes 16 (putGroups groups ++ rest) = some (putGroups groups, rest) := by
  have front := @getBytes_append (putGroups groups) rest
  rwa [length_putGroups] at front

@[simp] theorem getAddress_put (a : SocketAddress) (rest : Bytes) :
    getAddress (putAddress a ++ rest) = some (a.zoneless, rest) := by
  cases a with
  | v4 a b c d port =>
    simp [getAddress, putAddress, getNat_putTag, SocketAddress.zoneless]
  | v6 groups flow zone port =>
    simp [getAddress, putAddress, getNat_putTag, getBytes_putGroups, pairUp_putGroups,
      vector8?_toList, SocketAddress.zoneless]

@[simp] theorem getChannel_put (c : DataChannel) (rest : Bytes) :
    getChannel (putChannel c ++ rest) = some (c.zoneless, rest) := by
  cases c with
  | passive => simp [getChannel, putChannel, getNat_putTag, DataChannel.zoneless]
  | active a => simp [getChannel, putChannel, getNat_putTag, DataChannel.zoneless]

theorem getRequest_put (r : Request) (fits : (putRequest r).length < Word.bound64)
    (rest : Bytes) : getRequest (putRequest r ++ rest) = some (r.zoneless, rest) := by
  cases r with
  | openChannel channel => simp [getRequest, putRequest, getNat_putTag, Request.zoneless]
  | sendFile path mode resume want =>
    have text : (utf8 path).length < Word.bound64 := by
      simp only [putRequest, putText, List.length_append] at fits
      omega
    simp [getRequest, putRequest, getNat_putTag, getText_put _ text, Request.zoneless]
  | receiveFile directory mode filename offset =>
    have texts : (utf8 directory).length < Word.bound64 ∧
        (utf8 filename).length < Word.bound64 := by
      simp only [putRequest, putText, List.length_append] at fits
      omega
    simp [getRequest, putRequest, getNat_putTag, getText_put _ texts.1, getText_put _ texts.2,
      Request.zoneless]
  | abort reason =>
    have text : (utf8 reason).length < Word.bound64 := by
      simp only [putRequest, putText, List.length_append] at fits
      omega
    simp [getRequest, putRequest, getNat_putTag, getText_put _ text, Request.zoneless]
  | status => simp [getRequest, putRequest, getNat_putTag, Request.zoneless]
  | localPort => simp [getRequest, putRequest, getNat_putTag, Request.zoneless]

@[simp] theorem getStatus_put (s : TransferStatus) (rest : Bytes) :
    getStatus (putStatus s ++ rest) = some (s, rest) := by
  simp [getStatus, putStatus]

@[simp] theorem getKind_put (k : RemoteKind) (rest : Bytes) :
    getKind (putKind k ++ rest) = some (k, rest) := by
  cases k <;> simp [getKind, putKind, getNat_putTag]

@[simp] theorem getOption_put {α : Type} {put : α → Bytes} {get : Get α}
    (get_put : ∀ a rest, get (put a ++ rest) = some (a, rest)) (o : Option α) (rest : Bytes) :
    getOption get (putOption put o ++ rest) = some (o, rest) := by
  cases o with
  | none => rfl
  | some a => simp [getOption, putOption, get_put]

theorem getResponse_put (r : Response) (fits : (putResponse r).length < Word.bound64)
    (rest : Bytes) : getResponse (putResponse r ++ rest) = some (r, rest) := by
  cases r with
  | status s => simp [getResponse, putResponse, getNat_putTag]
  | localPort port =>
    simp [getResponse, putResponse, getNat_putTag, getOption_put getU16_put port rest]
  | aborted => simp [getResponse, putResponse, getNat_putTag]
  | error kind message =>
    have text : (utf8 message).length < Word.bound64 := by
      simp only [putResponse, putText, List.length_append] at fits
      omega
    simp [getResponse, putResponse, getNat_putTag, getText_put _ text]

theorem getRequestFrame_put (f : RequestFrame)
    (short : (putRequestFrame f).length < Word.bound32) :
    getRequestFrame (putRequestFrame f) = some (⟨f.id, f.request.zoneless⟩, []) := by
  have more : Word.bound32 ≤ Word.bound64 := by decide
  have request : (putRequest f.request).length < Word.bound64 := by
    rw [putRequestFrame, List.length_append] at short
    omega
  have inner := getRequest_put f.request request []
  rw [List.append_nil] at inner
  simp [getRequestFrame, putRequestFrame, inner]

theorem getResponseFrame_put (f : ResponseFrame)
    (short : (putResponseFrame f).length < Word.bound32) :
    getResponseFrame (putResponseFrame f) = some (f, []) := by
  have more : Word.bound32 ≤ Word.bound64 := by decide
  have response : (putResponse f.response).length < Word.bound64 := by
    rw [putResponseFrame, List.length_append] at short
    omega
  have inner := getResponse_put f.response response []
  rw [List.append_nil] at inner
  simp [getResponseFrame, putResponseFrame, inner]

theorem short_of_frame {body bytes : Bytes} (h : frame body = .ok bytes) :
    body.length < Word.bound32 := by
  have fits : limit < Word.bound32 := by decide
  unfold frame at h
  split at h
  · cases h
  · omega

theorem readFrame_frame {α : Type} {get : Get α} {a : α} {body bytes : Bytes}
    (h : frame body = .ok bytes) (read : get body = some (a, [])) (rest : Bytes) :
    readFrame get (bytes ++ rest) = (.ok (some a), rest) := by
  have bound := short_of_frame h
  unfold frame at h
  split at h
  · cases h
  · rename_i short
    have head := @getBytes_append (beBytes body.length) (body ++ rest)
    have four : (beBytes body.length).length = 4 := by
      rw [beBytes, List.length_reverse, length_leBytes]
    rw [four] at head
    rw [← Except.ok.inj h, readFrame, List.append_assoc, head]
    dsimp only
    rw [beValue_beBytes bound, if_neg short, getBytes_append]
    simp [decode, read]

theorem readFrame_of_frame {f : RequestFrame} {bytes : Bytes}
    (h : frame (putRequestFrame f) = .ok bytes) :
    readFrame getRequestFrame bytes = (.ok (some ⟨f.id, f.request.zoneless⟩), []) := by
  have read := readFrame_frame h (getRequestFrame_put f (short_of_frame h)) []
  rwa [List.append_nil] at read

theorem readFrame_of_answer {f : ResponseFrame} {bytes : Bytes}
    (h : frame (putResponseFrame f) = .ok bytes) (rest : Bytes) :
    readFrame getResponseFrame (bytes ++ rest) = (.ok (some f), rest) :=
  readFrame_frame h (getResponseFrame_put f (short_of_frame h)) rest

end Wire
end Archivist
