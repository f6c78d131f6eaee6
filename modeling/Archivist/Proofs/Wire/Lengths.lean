import Archivist.Wire.Frame
set_option autoImplicit false

namespace Archivist.Wire

def size (s : String) : Nat := (utf8 s).length

theorem size_eq (s : String) : size s = s.utf8ByteSize := by
  rw [size, utf8, Array.length_toList]
  rfl

@[simp] theorem size_append (s t : String) : size (s ++ t) = size s + size t := by
  rw [size_eq, size_eq, size_eq, String.utf8ByteSize_append]

theorem utf8_ofList (cs : List Char) :
    utf8 (String.ofList cs) = cs.flatMap String.utf8EncodeChar := by
  rw [utf8, String.toUTF8_eq_toByteArray, String.toByteArray_ofList, List.utf8Encode,
    List.data_toByteArray]

theorem size_replicate (n : Nat) (c : Char) :
    size (String.ofList (List.replicate n c)) = n * c.utf8Size := by
  rw [size, utf8_ofList]
  induction n with
  | zero => rw [Nat.zero_mul]; rfl
  | succ n ih =>
    rw [List.replicate_succ, List.flatMap_cons, List.length_append, ih,
      String.length_utf8EncodeChar, Nat.succ_mul, Nat.add_comm]

theorem size_le (s : String) : size s ≤ 4 * s.length := by
  rw [← String.ofList_toList (s := s), size, utf8_ofList, String.length_ofList]
  induction s.toList with
  | nil => exact Nat.zero_le _
  | cons c cs ih =>
    have few := c.utf8Size_le_four
    rw [List.flatMap_cons, List.length_append, String.length_utf8EncodeChar, List.length_cons]
    omega

@[simp] theorem length_putTag (n : Nat) : (putTag n).length = 4 := length_leBytes 4 n

@[simp] theorem length_putU16 (n : UInt16) : (putU16 n).length = 2 := length_leBytes 2 _

@[simp] theorem length_putU32 (n : UInt32) : (putU32 n).length = 4 := length_leBytes 4 _

@[simp] theorem length_putU64 (n : UInt64) : (putU64 n).length = 8 := length_leBytes 8 _

@[simp] theorem length_putBool (b : Bool) : (putBool b).length = 1 := rfl

@[simp] theorem length_putMode (m : TransferMode) : (putMode m).length = 4 := by
  cases m <;> exact length_putTag _

@[simp] theorem length_putKind (k : RemoteKind) : (putKind k).length = 4 := by
  cases k <;> exact length_putTag _

@[simp] theorem length_putStatus (s : TransferStatus) : (putStatus s).length = 21 := by
  simp [putStatus]

@[simp] theorem length_putText (s : String) : (putText s).length = 8 + size s := by
  rw [putText, List.length_append, length_leBytes, size]

section Requests

variable (id : UInt64)

theorem length_sendFile (path : String) (mode : TransferMode) (resume : UInt64) (want : Bool) :
    (putRequestFrame ⟨id, .sendFile path mode resume want⟩).length = 33 + size path := by
  simp [putRequestFrame, putRequest]
  omega

theorem length_receiveFile (directory : String) (mode : TransferMode) (filename : String)
    (offset : UInt64) :
    (putRequestFrame ⟨id, .receiveFile directory mode filename offset⟩).length =
      40 + size directory + size filename := by
  simp [putRequestFrame, putRequest]
  omega

theorem length_abort (reason : String) :
    (putRequestFrame ⟨id, .abort reason⟩).length = 20 + size reason := by
  simp [putRequestFrame, putRequest]
  omega

end Requests

section Answers

variable (id : UInt64)

theorem length_status (s : TransferStatus) : (putResponseFrame ⟨id, .status s⟩).length = 33 := by
  simp [putResponseFrame, putResponse]

theorem length_localPort (port : Option UInt16) :
    (putResponseFrame ⟨id, .localPort port⟩).length ≤ 15 := by
  cases port <;> simp [putResponseFrame, putResponse, putOption]

theorem length_aborted : (putResponseFrame ⟨id, .aborted⟩).length = 12 := by
  simp [putResponseFrame, putResponse]

theorem length_error (kind : RemoteKind) (message : String) :
    (putResponseFrame ⟨id, .error kind message⟩).length = 24 + size message := by
  simp [putResponseFrame, putResponse]
  omega

end Answers

end Archivist.Wire
