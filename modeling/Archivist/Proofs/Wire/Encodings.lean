import Archivist.Proofs.Wire.Delivery
set_option autoImplicit false

/-!
# Bytes that can be read were written

Whoever reads a value has taken exactly the bytes that are written for it off the front, and has
not looked at what stands behind them (`Exact`).  The parts of a message are read in this way, and
so are the messages: a message that can be read has one form in bytes.
-/

namespace Archivist

namespace Wire

/-- What is read is what is written for the value, whatever stands behind it. -/
def Exact {α : Type} (put : α → Bytes) (get : Get α) : Prop :=
  ∀ ⦃bs rest : Bytes⦄ ⦃a : α⦄, get bs = some (a, rest) →
    bs = put a ++ rest ∧ ∀ other, get (put a ++ other) = some (a, other)

section

variable {α : Type} {put : α → Bytes} {get : Get α} {bs rest : Bytes} {a : α}

theorem Exact.front (hexact : Exact put get) (h : get bs = some (a, rest)) : bs = put a ++ rest :=
  (hexact h).1

theorem Exact.again (hexact : Exact put get) (h : get bs = some (a, rest)) (other : Bytes) :
    get (put a ++ other) = some (a, other) :=
  (hexact h).2 other

theorem Exact.of_get_put (get_put : ∀ a rest, get (put a ++ rest) = some (a, rest))
    (front : ∀ bs rest a, get bs = some (a, rest) → bs = put a ++ rest) : Exact put get :=
  fun _ _ _ h => ⟨front _ _ _ h, get_put _⟩

end

theorem of_mapped {α β : Type} {f : α → β} {got : Option (α × Bytes)} {b : β} {rest : Bytes}
    (h : got.map (fun x => (f x.1, x.2)) = some (b, rest)) :
    ∃ a, got = some (a, rest) ∧ f a = b := by
  obtain ⟨⟨a, behind⟩, taken, eq⟩ := Option.map_eq_some_iff.1 h
  obtain ⟨rfl, rfl⟩ := Prod.mk.inj eq
  exact ⟨a, taken, rfl⟩

/-! ## Numbers -/

theorem getBytes_eq_some {count : Nat} {bs front rest : Bytes}
    (h : getBytes count bs = some (front, rest)) : front.length = count ∧ bs = front ++ rest := by
  unfold getBytes at h
  split at h
  · rename_i enough
    cases h
    exact ⟨List.length_take_of_le enough, (List.take_append_drop count bs).symm⟩
  · cases h

theorem leValue_lt (bs : Bytes) : leValue bs < Nat.pow 256 bs.length := by
  induction bs with
  | nil => exact Nat.one_pos
  | cons b bs ih =>
    have low := b.toNat_lt
    have step : Nat.pow 256 (bs.length + 1) = Nat.pow 256 bs.length * 256 := rfl
    rw [leValue, List.length_cons, step]
    omega

theorem leBytes_leValue (bs : Bytes) : leBytes bs.length (leValue bs) = bs := by
  induction bs with
  | nil => rfl
  | cons b bs ih =>
    have low := b.toNat_lt
    have first : UInt8.ofNat (b.toNat + 256 * leValue bs) = b := by
      apply UInt8.toNat_inj.1
      rw [UInt8.toNat_ofNat']
      omega
    have others : (b.toNat + 256 * leValue bs) / 256 = leValue bs := by omega
    rw [leValue, List.length_cons, leBytes, first, others, ih]

theorem getNat_eq_some {width n : Nat} {bs rest : Bytes} (h : getNat width bs = some (n, rest)) :
    bs = leBytes width n ++ rest ∧ n < Nat.pow 256 width := by
  obtain ⟨front, taken, rfl⟩ := of_mapped (f := leValue) h
  obtain ⟨rfl, rfl⟩ := getBytes_eq_some taken
  rw [leBytes_leValue]
  exact ⟨rfl, leValue_lt front⟩

theorem exact_u16 : Exact putU16 getU16 := by
  refine .of_get_put getU16_put ?_
  intro bs rest a h
  obtain ⟨n, taken, rfl⟩ := of_mapped (f := Nat.toUInt16) h
  obtain ⟨rfl, bound⟩ := getNat_eq_some taken
  rw [putU16, UInt16.toNat_ofNat_of_lt' bound]

theorem exact_u32 : Exact putU32 getU32 := by
  refine .of_get_put getU32_put ?_
  intro bs rest a h
  obtain ⟨n, taken, rfl⟩ := of_mapped (f := Nat.toUInt32) h
  obtain ⟨rfl, bound⟩ := getNat_eq_some taken
  rw [putU32, UInt32.toNat_ofNat_of_lt' bound]

theorem exact_u64 : Exact putU64 getU64 := by
  refine .of_get_put getU64_put ?_
  intro bs rest a h
  obtain ⟨n, taken, rfl⟩ := of_mapped (f := Nat.toUInt64) h
  obtain ⟨rfl, bound⟩ := getNat_eq_some taken
  rw [putU64, UInt64.toNat_ofNat_of_lt' bound]

theorem exact_bool : Exact putBool getBool := by
  refine .of_get_put getBool_put ?_
  intro bs rest a h
  cases bs with
  | nil => cases h
  | cons b bs =>
    rw [getBool] at h
    split at h
    · rename_i zero
      cases h
      rw [zero]
      rfl
    · split at h
      · rename_i one
        cases h
        rw [one]
        rfl
      · cases h

/-! ## Texts and optional parts -/

theorem utf8_of_ofUtf8? {bs : Bytes} {s : String} (h : ofUtf8? bs = some s) : utf8 s = bs := by
  unfold ofUtf8? String.fromUTF8? at h
  split at h
  · rw [← Option.some.inj h]
    rfl
  · cases h

theorem exact_text : Exact putText getText := by
  intro bs rest s h
  unfold getText at h
  split at h
  · cases h
  · rename_i count behind length
    split at h
    · cases h
    · rename_i front left taken
      obtain ⟨text, valid, eq⟩ := Option.map_eq_some_iff.1 h
      obtain ⟨rfl, rfl⟩ := Prod.mk.inj eq
      obtain ⟨rfl, bound⟩ := getNat_eq_some length
      obtain ⟨rfl, rfl⟩ := getBytes_eq_some taken
      obtain rfl := utf8_of_ofUtf8? valid
      exact ⟨(List.append_assoc _ _ _).symm, getText_put _ bound⟩

theorem Exact.option {α : Type} {put : α → Bytes} {get : Get α} (inner : Exact put get) :
    Exact (putOption put) (getOption get) := by
  intro bs rest o h
  cases bs with
  | nil => cases h
  | cons b bs =>
    rw [getOption] at h
    split at h
    · rename_i zero
      cases h
      rw [zero]
      exact ⟨rfl, fun _ => rfl⟩
    · split at h
      · rename_i one
        obtain ⟨a, taken, rfl⟩ := of_mapped (f := some) h
        rw [one, inner.front taken]
        exact ⟨rfl, fun other => by simp [getOption, putOption, inner.again taken other]⟩
      · cases h

/-! ## Alternatives -/

theorem of_tag {n : Nat} {bs rest : Bytes} (h : getNat 4 bs = some (n, rest)) :
    bs = putTag n ++ rest := (getNat_eq_some h).1

theorem exact_mode : Exact putMode getMode := by
  refine .of_get_put getMode_put ?_
  intro bs rest m h
  obtain ⟨⟨n, behind⟩, tag, h⟩ := Option.bind_eq_some_iff.1 h
  rw [of_tag tag]
  split at h
  case h_3 => cases h
  all_goals
    rename_i eq
    cases eq
    cases h
    rfl

theorem exact_kind : Exact putKind getKind := by
  refine .of_get_put getKind_put ?_
  intro bs rest k h
  obtain ⟨⟨n, behind⟩, tag, h⟩ := Option.bind_eq_some_iff.1 h
  rw [of_tag tag]
  split at h
  case h_6 => cases h
  all_goals
    rename_i eq
    cases eq
    cases h
    rfl

/-! ## Addresses -/

theorem octets_eq (hi lo : UInt8) :
    ((hi.toUInt16 * 256 + lo.toUInt16) >>> 8).toUInt8 = hi ∧
      (hi.toUInt16 * 256 + lo.toUInt16).toUInt8 = lo := by
  have high := hi.toNat_lt
  have low := lo.toNat_lt
  constructor
  · apply UInt8.toNat_inj.1
    simp only [UInt16.toNat_add, UInt16.toNat_mul, UInt8.toNat_toUInt16, UInt16.toNat_toUInt8,
      UInt16.toNat_shiftRight, UInt16.reduceToNat, Nat.shiftRight_eq_div_pow, Nat.reduceMod,
      Nat.reducePow]
    omega
  · apply UInt8.toNat_inj.1
    simp only [UInt16.toNat_add, UInt16.toNat_mul, UInt8.toNat_toUInt16, UInt16.toNat_toUInt8,
      UInt16.reduceToNat, Nat.reducePow]
    omega

theorem flatMap_pairUp (n : Nat) {octets : Bytes} (even : octets.length = 2 * n) :
    (pairUp octets).flatMap (fun g : UInt16 => [(g >>> 8).toUInt8, g.toUInt8]) = octets := by
  induction n generalizing octets with
  | zero =>
    rw [List.length_eq_zero_iff.1 even]
    rfl
  | succ n ih =>
    match octets, even with
    | hi :: lo :: octets, even =>
      have rest : octets.length = 2 * n := by
        simp only [List.length_cons] at even
        omega
      obtain ⟨first, second⟩ := octets_eq hi lo
      rw [pairUp, List.flatMap_cons, ih rest, first, second]
      rfl

theorem toList_of_vector8? {gs : List UInt16} {groups : Vector UInt16 8}
    (h : Address.vector8? gs = some groups) : groups.toList = gs := by
  unfold Address.vector8? at h
  split at h
  · rw [← Option.some.inj h]
    rfl
  · cases h

theorem exact_address : Exact putAddress getAddress := by
  intro bs rest a h
  obtain ⟨⟨n, behind⟩, tag, h⟩ := Option.bind_eq_some_iff.1 h
  rw [of_tag tag]
  split at h
  · rename_i eq
    cases eq
    obtain ⟨⟨port, left⟩, last, h⟩ := Option.bind_eq_some_iff.1 h
    cases h
    rw [exact_u16.front last]
    exact ⟨rfl, getAddress_put _⟩
  · rename_i eq
    cases eq
    obtain ⟨⟨octets, left⟩, taken, h⟩ := Option.bind_eq_some_iff.1 h
    obtain ⟨groups, paired, h⟩ := Option.bind_eq_some_iff.1 h
    obtain ⟨⟨port, left⟩, last, h⟩ := Option.bind_eq_some_iff.1 h
    cases h
    obtain ⟨sixteen, rfl⟩ := getBytes_eq_some taken
    have written : putGroups groups = octets := by
      rw [putGroups, toList_of_vector8? paired, flatMap_pairUp 8 sixteen]
    refine ⟨?_, getAddress_put _⟩
    rw [exact_u16.front last, putAddress, written, List.append_assoc, List.append_assoc]
  · cases h

theorem exact_channel : Exact putChannel getChannel := by
  intro bs rest c h
  obtain ⟨⟨n, behind⟩, tag, h⟩ := Option.bind_eq_some_iff.1 h
  rw [of_tag tag]
  split at h
  · rename_i eq
    cases eq
    cases h
    exact ⟨rfl, fun other => getChannel_put .passive other⟩
  · rename_i eq
    cases eq
    obtain ⟨⟨address, left⟩, inner, h⟩ := Option.bind_eq_some_iff.1 h
    cases h
    rw [exact_address.front inner, putChannel, List.append_assoc]
    exact ⟨rfl, fun other => by simp [getChannel, getNat_putTag, exact_address.again inner other]⟩
  · cases h

/-! ## Messages -/

theorem exact_status : Exact putStatus getStatus := by
  refine .of_get_put getStatus_put ?_
  intro bs rest s h
  obtain ⟨⟨elapsed, r₁⟩, first, h⟩ := Option.bind_eq_some_iff.1 h
  obtain ⟨⟨moved, r₂⟩, second, h⟩ := Option.bind_eq_some_iff.1 h
  obtain ⟨⟨sum, r₃⟩, third, h⟩ := Option.bind_eq_some_iff.1 h
  obtain ⟨⟨finished, r₄⟩, last, h⟩ := Option.bind_eq_some_iff.1 h
  cases h
  rw [exact_u64.front first, exact_u64.front second, exact_u32.front third, exact_bool.front last]
  simp only [putStatus, List.append_assoc]

theorem exact_request : Exact putRequest getRequest := by
  intro bs rest r h
  obtain ⟨⟨n, behind⟩, tag, h⟩ := Option.bind_eq_some_iff.1 h
  rw [of_tag tag]
  split at h
  · rename_i eq
    cases eq
    obtain ⟨⟨channel, r₁⟩, only, h⟩ := Option.bind_eq_some_iff.1 h
    cases h
    rw [exact_channel.front only, putRequest, List.append_assoc]
    exact ⟨rfl, fun other => by simp [getRequest, getNat_putTag, exact_channel.again only other]⟩
  · rename_i eq
    cases eq
    obtain ⟨⟨path, r₁⟩, first, h⟩ := Option.bind_eq_some_iff.1 h
    obtain ⟨⟨mode, r₂⟩, second, h⟩ := Option.bind_eq_some_iff.1 h
    obtain ⟨⟨resume, r₃⟩, third, h⟩ := Option.bind_eq_some_iff.1 h
    obtain ⟨⟨want, r₄⟩, last, h⟩ := Option.bind_eq_some_iff.1 h
    cases h
    rw [exact_text.front first, exact_mode.front second, exact_u64.front third,
      exact_bool.front last]
    refine ⟨by simp only [putRequest, List.append_assoc], fun other => ?_⟩
    simp [getRequest, putRequest, getNat_putTag, exact_text.again first]
  · rename_i eq
    cases eq
    obtain ⟨⟨directory, r₁⟩, first, h⟩ := Option.bind_eq_some_iff.1 h
    obtain ⟨⟨mode, r₂⟩, second, h⟩ := Option.bind_eq_some_iff.1 h
    obtain ⟨⟨name, r₃⟩, third, h⟩ := Option.bind_eq_some_iff.1 h
    obtain ⟨⟨offset, r₄⟩, last, h⟩ := Option.bind_eq_some_iff.1 h
    cases h
    rw [exact_text.front first, exact_mode.front second, exact_text.front third,
      exact_u64.front last]
    refine ⟨by simp only [putRequest, List.append_assoc], fun other => ?_⟩
    simp [getRequest, putRequest, getNat_putTag, exact_text.again first, exact_text.again third]
  · rename_i eq
    cases eq
    obtain ⟨⟨reason, r₁⟩, only, h⟩ := Option.bind_eq_some_iff.1 h
    cases h
    rw [exact_text.front only, putRequest, List.append_assoc]
    exact ⟨rfl, fun other => by simp [getRequest, getNat_putTag, exact_text.again only other]⟩
  · rename_i eq
    cases eq
    cases h
    exact ⟨rfl, fun other => by simp [getRequest, putRequest, getNat_putTag]⟩
  · rename_i eq
    cases eq
    cases h
    exact ⟨rfl, fun other => by simp [getRequest, putRequest, getNat_putTag]⟩
  · cases h

theorem exact_response : Exact putResponse getResponse := by
  intro bs rest r h
  obtain ⟨⟨n, behind⟩, tag, h⟩ := Option.bind_eq_some_iff.1 h
  rw [of_tag tag]
  split at h
  · rename_i eq
    cases eq
    obtain ⟨⟨status, r₁⟩, only, h⟩ := Option.bind_eq_some_iff.1 h
    cases h
    rw [exact_status.front only, putResponse, List.append_assoc]
    exact ⟨rfl, fun other => by simp [getResponse, getNat_putTag]⟩
  · rename_i eq
    cases eq
    obtain ⟨⟨port, r₁⟩, only, h⟩ := Option.bind_eq_some_iff.1 h
    cases h
    rw [exact_u16.option.front only, putResponse, List.append_assoc]
    refine ⟨rfl, fun other => ?_⟩
    simp [getResponse, getNat_putTag, exact_u16.option.again only other]
  · rename_i eq
    cases eq
    cases h
    exact ⟨rfl, fun other => by simp [getResponse, putResponse, getNat_putTag]⟩
  · rename_i eq
    cases eq
    obtain ⟨⟨kind, r₁⟩, first, h⟩ := Option.bind_eq_some_iff.1 h
    obtain ⟨⟨message, r₂⟩, last, h⟩ := Option.bind_eq_some_iff.1 h
    cases h
    rw [exact_kind.front first, exact_text.front last]
    refine ⟨by simp only [putResponse, List.append_assoc], fun other => ?_⟩
    simp [getResponse, putResponse, getNat_putTag, exact_text.again last]
  · cases h

theorem exact_requestFrame : Exact putRequestFrame getRequestFrame := by
  intro bs rest f h
  obtain ⟨⟨id, r₁⟩, first, h⟩ := Option.bind_eq_some_iff.1 h
  obtain ⟨⟨request, r₂⟩, last, h⟩ := Option.bind_eq_some_iff.1 h
  cases h
  rw [exact_u64.front first, exact_request.front last, putRequestFrame, List.append_assoc]
  exact ⟨rfl, fun other => by simp [getRequestFrame, exact_request.again last]⟩

theorem exact_responseFrame : Exact putResponseFrame getResponseFrame := by
  intro bs rest f h
  obtain ⟨⟨id, r₁⟩, first, h⟩ := Option.bind_eq_some_iff.1 h
  obtain ⟨⟨response, r₂⟩, last, h⟩ := Option.bind_eq_some_iff.1 h
  cases h
  rw [exact_u64.front first, exact_response.front last, putResponseFrame, List.append_assoc]
  exact ⟨rfl, fun other => by simp [getResponseFrame, exact_response.again last]⟩

/-- A kind of message whose members have one form in bytes each.  What is written is read, in the
form in which it travels; what is read begins with what is written for it, and is read again
whatever follows; and only one row of bytes is read to its end as a message. -/
structure OneForm {α : Type} (put : α → Bytes) (get : Get α) (seen : α → α) : Prop where
  reads : ∀ a, (put a).length < Word.bound64 → ∀ other, decode get (put a ++ other) = some (seen a)
  front : ∀ bs a, decode get bs = some a → put a <+: bs
  again : ∀ bs a, decode get bs = some a → ∀ other, decode get (put a ++ other) = some a
  unique : ∀ bs bs' a, get bs = some (a, []) → get bs' = some (a, []) → bs = bs'

theorem Exact.oneForm {α : Type} {put : α → Bytes} {get : Get α} {seen : α → α}
    (hexact : Exact put get)
    (get_put : ∀ a, (put a).length < Word.bound64 → ∀ other,
      get (put a ++ other) = some (seen a, other)) : OneForm put get seen where
  reads a fits other := by rw [decode, get_put a fits other, Option.map_some]
  front bs a h := by
    obtain ⟨⟨a, rest⟩, taken, rfl⟩ := Option.map_eq_some_iff.1 h
    exact ⟨rest, (hexact.front taken).symm⟩
  again bs a h other := by
    obtain ⟨⟨a, rest⟩, taken, rfl⟩ := Option.map_eq_some_iff.1 h
    rw [decode, hexact.again taken other, Option.map_some]
  unique bs bs' a h h' := (hexact.front h).trans (hexact.front h').symm

theorem getRequestFrame_append (f : RequestFrame)
    (fits : (putRequestFrame f).length < Word.bound64) (other : Bytes) :
    getRequestFrame (putRequestFrame f ++ other) = some (f.zoneless, other) := by
  have request : (putRequest f.request).length < Word.bound64 := by
    rw [putRequestFrame, List.length_append] at fits
    omega
  simp [getRequestFrame, putRequestFrame, getRequest_put f.request request,
    RequestFrame.zoneless]

theorem getResponseFrame_append (f : ResponseFrame)
    (fits : (putResponseFrame f).length < Word.bound64) (other : Bytes) :
    getResponseFrame (putResponseFrame f ++ other) = some (f, other) := by
  have response : (putResponse f.response).length < Word.bound64 := by
    rw [putResponseFrame, List.length_append] at fits
    omega
  simp [getResponseFrame, putResponseFrame, getResponse_put f.response response]

end Wire

open Wire in
/-- Requests and answers, with their numbers and without, have one form in bytes each: bytes that
can be decoded begin with what is written for the message that they yield, and yield it with any
other bytes behind that. -/
theorem messages_oneForm :
    OneForm putRequest getRequest Request.zoneless ∧ OneForm putResponse getResponse id ∧
      OneForm putRequestFrame getRequestFrame RequestFrame.zoneless ∧
        OneForm putResponseFrame getResponseFrame id :=
  ⟨exact_request.oneForm getRequest_put, exact_response.oneForm getResponse_put,
    exact_requestFrame.oneForm getRequestFrame_append,
    exact_responseFrame.oneForm getResponseFrame_append⟩

example : Wire.decode Wire.getResponse [1, 0, 0, 0, 2, 0, 0] = none := by decide +kernel

end Archivist
