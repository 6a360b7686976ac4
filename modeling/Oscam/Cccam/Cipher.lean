import Mathlib.Logic.Equiv.Basic
import Oscam.Protocol.EcmLength

/-!
# The cipher of a CCcam connection

`cc_crypt` goes through the same states on both sides of a connection, however
the stream is cut.  The table stays a permutation, and its walk does not
depend on the data; only the register `state` does.
-/

namespace Oscam.Cccam

/-- `SWAPC` on two entries of the table. -/
def swapc (keytable : UInt8 → UInt8) (x y : UInt8) (i : UInt8) : UInt8 :=
  if i = x then keytable y else if i = y then keytable x else keytable i

/-- The loop of `cc_init_crypt`: the table and `j`. -/
def mixKey (key : List UInt8) (mixed : (UInt8 → UInt8) × UInt8) (i : Nat) :
    (UInt8 → UInt8) × UInt8 :=
  let j := mixed.2 + key.getD (i % key.length) 0 + mixed.1 (UInt8.ofNat i)
  (swapc mixed.1 (UInt8.ofNat i) j, j)

/-- `cc_init_crypt`. -/
def initCrypt (key : List UInt8) : CryptBlock :=
  { keytable := ((List.range 256).foldl (mixKey key) (id, 0)).1
    state := key.getD 0 0, counter := 0, sum := 0 }

/-- A stream processed piece by piece. -/
def cryptPieces (mode : CryptMode) :
    CryptBlock → List (List UInt8) → CryptBlock × List (List UInt8)
  | block, [] => (block, [])
  | block, piece :: pieces =>
      let head := crypt mode block piece
      let rest := cryptPieces mode head.1 pieces
      (rest.1, head.2 :: rest.2)

/-- A stream cut into pieces of these lengths, the last one what is left. -/
def cut : List Nat → List UInt8 → List (List UInt8)
  | [], stream => [stream]
  | n :: lengths, stream => stream.take n :: cut lengths (stream.drop n)

/-- The blocks before and after every byte. -/
def visited (mode : CryptMode) : CryptBlock → List UInt8 → List CryptBlock
  | block, [] => [block]
  | block, z :: data => block :: visited mode (crypt mode block [z]).1 data

/-- A message: the plain pieces in which it is encrypted, and the lengths of
the pieces in which it is decrypted. -/
structure Transfer where
  pieces : List (List UInt8)
  cuts : List Nat

/-- The key table holds every byte once. -/
def CryptBlock.IsPermutation (block : CryptBlock) : Prop :=
  Function.Bijective block.keytable

/-- After every message the plain bytes have arrived and both blocks are
equal, and all tables on the way are permutations. -/
def InStep : CryptBlock → CryptBlock → List Transfer → Prop
  | _, _, [] => True
  | sender, receiver, message :: messages =>
      let sent := cryptPieces .encrypt sender message.pieces
      let stream := sent.2.flatten
      let received := cryptPieces .decrypt receiver (cut message.cuts stream)
      received.2.flatten = message.pieces.flatten ∧ received.1 = sent.1 ∧
        (∀ block ∈ visited .encrypt sender message.pieces.flatten,
          block.IsPermutation) ∧
        (∀ block ∈ visited .decrypt receiver stream, block.IsPermutation) ∧
        InStep sent.1 received.1 messages

/-! ## Cutting a stream -/

theorem flatten_cut (lengths : List Nat) (stream : List UInt8) :
    (cut lengths stream).flatten = stream := by
  induction lengths generalizing stream with
  | nil => simp [cut]
  | cons n lengths induction => simp [cut, induction]

theorem crypt_append (mode : CryptMode) (block : CryptBlock)
    (first second : List UInt8) :
    crypt mode block (first ++ second) =
      ((crypt mode (crypt mode block first).1 second).1,
        (crypt mode block first).2 ++
          (crypt mode (crypt mode block first).1 second).2) := by
  induction first generalizing block with
  | nil => simp [crypt]
  | cons z first induction => simp only [List.cons_append, crypt, induction]

/-- Only the stream matters, not its pieces. -/
theorem cryptPieces_flatten (mode : CryptMode) (block : CryptBlock)
    (pieces : List (List UInt8)) :
    crypt mode block pieces.flatten =
      ((cryptPieces mode block pieces).1,
        (cryptPieces mode block pieces).2.flatten) := by
  induction pieces generalizing block with
  | nil => rfl
  | cons piece pieces induction =>
      simp only [List.flatten_cons, crypt_append, cryptPieces, induction]

/-- A message decrypted in other pieces than it was encrypted in. -/
theorem decrypt_pieces (block : CryptBlock) (message : Transfer) :
    let sent := cryptPieces .encrypt block message.pieces
    let received := cryptPieces .decrypt block
      (cut message.cuts sent.2.flatten)
    received.2.flatten = message.pieces.flatten ∧ received.1 = sent.1 := by
  have whole := crypt_decrypt_encrypt block message.pieces.flatten
  rw [cryptPieces_flatten .encrypt] at whole
  rw [← flatten_cut message.cuts (cryptPieces .encrypt block
    message.pieces).2.flatten, cryptPieces_flatten .decrypt] at whole
  obtain ⟨blocks, bytes⟩ := Prod.mk.inj whole
  exact ⟨bytes, blocks⟩

/-! ## The table stays a permutation -/

theorem swapc_eq (keytable : UInt8 → UInt8) (x y : UInt8) :
    swapc keytable x y = keytable ∘ Equiv.swap x y := by
  funext i
  simp only [swapc, Function.comp_apply, Equiv.swap_apply_def]
  split
  · rfl
  · split <;> rfl

theorem swapc_bijective {keytable : UInt8 → UInt8}
    (bijective : Function.Bijective keytable) (x y : UInt8) :
    Function.Bijective (swapc keytable x y) := by
  rw [swapc_eq]
  exact bijective.comp (Equiv.swap x y).bijective

theorem mixKey_bijective (key : List UInt8) (indices : List Nat)
    {mixed : (UInt8 → UInt8) × UInt8}
    (bijective : Function.Bijective mixed.1) :
    Function.Bijective (indices.foldl (mixKey key) mixed).1 := by
  induction indices generalizing mixed with
  | nil => exact bijective
  | cons i indices induction =>
      apply induction
      exact swapc_bijective bijective _ _

theorem initCrypt_isPermutation (key : List UInt8) :
    (initCrypt key).IsPermutation :=
  mixKey_bijective key _ Function.bijective_id

theorem turn_isPermutation {block : CryptBlock}
    (permutation : block.IsPermutation) : block.turn.1.IsPermutation :=
  swapc_bijective permutation _ _

theorem crypt_isPermutation (mode : CryptMode) {block : CryptBlock}
    (permutation : block.IsPermutation) (data : List UInt8) :
    (crypt mode block data).1.IsPermutation := by
  induction data generalizing block with
  | nil => exact permutation
  | cons z data induction =>
      apply induction
      exact turn_isPermutation permutation

theorem visited_isPermutation (mode : CryptMode) {block : CryptBlock}
    (permutation : block.IsPermutation) (data : List UInt8) :
    ∀ other ∈ visited mode block data, other.IsPermutation := by
  induction data generalizing block with
  | nil => simpa [visited] using permutation
  | cons z data induction =>
      intro other member
      rcases List.mem_cons.mp member with rfl | later
      · exact permutation
      · exact induction (crypt_isPermutation mode permutation [z]) other later

theorem inStep_of_isPermutation {block : CryptBlock}
    (permutation : block.IsPermutation) (messages : List Transfer) :
    InStep block block messages := by
  induction messages generalizing block with
  | nil => trivial
  | cons message messages induction =>
      obtain ⟨bytes, blocks⟩ := decrypt_pieces block message
      have after := crypt_isPermutation .encrypt permutation
        message.pieces.flatten
      rw [cryptPieces_flatten] at after
      refine ⟨bytes, blocks, visited_isPermutation _ permutation _,
        visited_isPermutation _ permutation _, ?_⟩
      rw [blocks]
      exact induction after

/-- Whatever the seed, the messages and the cuts on either side, what is
decrypted is what was encrypted. -/
theorem messages_inStep (seed : List UInt8) (messages : List Transfer) :
    InStep (initCrypt seed) (initCrypt seed) messages :=
  inStep_of_isPermutation (initCrypt_isPermutation seed) messages

end Oscam.Cccam
