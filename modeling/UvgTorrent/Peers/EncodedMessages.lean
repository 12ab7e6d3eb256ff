import UvgTorrent.Bencode.Encoding
import UvgTorrent.Peers.Messages

/-! The dictionaries that peers are sent: `be_encode` has room for each of them in the buffer of its
caller, whatever the numbers, and `be_decode` takes each of them back.
-/

namespace UvgTorrent

open Foundations

namespace BeNode

/-- A dictionary of numbers. -/
def numbers (entries : List (CString × Int)) : BeNode :=
  .dict (entries.map fun entry => (entry.1, .num entry.2))

/-- The dictionary of `peer_send_ut_metadata_request`. -/
def requestDict (chunk : Int) : BeNode := numbers [(ascii "msg_type", 0), (ascii "piece", chunk)]

/-- The dictionary of `peer_handle_ut_metadata_request`. -/
def dataDict (chunk totalSize : Int) : BeNode :=
  numbers [(ascii "msg_type", 1), (ascii "piece", chunk), (ascii "total_size", totalSize)]

/-- The keys are short, and the numbers are `long long`s. -/
def Printable (entries : List (CString × Int)) : Prop :=
  ∀ entry ∈ entries, entry.1.length < 16 ∧ -2 ^ 63 ≤ entry.2 ∧ entry.2 < 2 ^ 63

variable {entries : List (CString × Int)} {node : BeNode} {value chunk totalSize : Int}

theorem numbers_fits (printable : Printable entries) (levels : Nat)
    : (numbers entries).Fits (levels + 2) := by
  intro entry member
  obtain ⟨printed, inEntries, rfl⟩ := List.mem_map.mp member
  obtain ⟨short, range⟩ := printable printed inEntries
  exact ⟨by dsimp only; omega, range⟩

/-- A number takes less than sixty bytes with its key. Induction on the entries. -/
theorem numbers_length_le (printable : Printable entries)
    : (numbers entries).encode.length ≤ 59 * entries.length + 2 := by
  have marks : (ascii "d").length = 1 ∧ (ascii "e").length = 1 := by decide
  rw [numbers, encode, encodeDict_eq, List.length_append, List.length_append, marks.1, marks.2]
  suffices counted
      : ((entries.map fun entry => (entry.1, BeNode.num entry.2)).flatMap encodeEntry).length
        ≤ 59 * entries.length by
    omega
  induction entries with
  | nil => exact Nat.zero_le _
  | cons entry rest ih =>
      obtain ⟨short, lower, upper⟩ := printable entry List.mem_cons_self
      have first := encodeEntry_num_length_le entry.1 entry.2 (by omega) lower upper
      have others := ih fun other member => printable other (List.mem_cons_of_mem entry member)
      rw [List.map_cons, List.flatMap_cons, List.length_append, List.length_cons, Nat.mul_add]
      omega

theorem printable_cons {key : CString} (short : key.length < 16) (lower : -2 ^ 63 ≤ value)
    (upper : value < 2 ^ 63) (rest : Printable entries)
    : Printable ((key, value) :: entries) := by
  intro entry member
  rcases List.mem_cons.mp member with rfl | member
  · exact ⟨short, lower, upper⟩
  · exact rest entry member

-----------------------------------------------------------------------------------------
-- The three messages
-----------------------------------------------------------------------------------------

theorem requestDict_printable (lower : -2 ^ 63 ≤ chunk) (upper : chunk < 2 ^ 63)
    : Printable [(ascii "msg_type", 0), (ascii "piece", chunk)] := by
  apply printable_cons (by decide) (by decide) (by decide)
  exact printable_cons (by decide) lower upper nofun

theorem dataDict_printable (lower : -2 ^ 63 ≤ chunk) (upper : chunk < 2 ^ 63) (size : Int)
    : Printable
        [(ascii "msg_type", 1), (ascii "piece", chunk), (ascii "total_size", wrap32 size)] := by
  obtain ⟨sizeLower, sizeUpper⟩ := MetadataExchange.wrap32_fits size
  apply printable_cons (by decide) (by decide) (by decide)
  apply printable_cons (by decide) lower upper
  exact printable_cons (by decide) (by omega) (by omega) nofun

theorem handshakeDict_printable
    : Printable [(ascii "ut_metadata", (utMetadataId : Int))] :=
  printable_cons (by decide) (by decide) (by decide) nofun

/-- The text of a node is written to the start of a buffer, and `be_decode` takes the node back from
it, whatever stands behind it.
-/
structure EncodedIn (size : Nat) (node : BeNode) : Prop where
  length_le : node.encode.length ≤ size
  written
    : beEncode node ⟨List.replicate size 0, some 0, size⟩
      = .ok
          (node.encode ++ List.replicate (size - node.encode.length) 0,
            (node.encode.length : Int))
  read : ∀ rest, beDecode (node.encode ++ rest) = .ok (some (node, node.encode.length))

theorem encodedIn_of_length {size : Nat} (fits : node.Fits 10) (room : node.encode.length ≤ size)
    (small : size < 2 ^ 31)
    : EncodedIn size node := by
  refine ⟨room, ?_, fun rest => beDecode_encode fits rest⟩
  have valid : OutBuffer.Valid ⟨List.replicate size 0, some 0, size⟩ := by
    refine ⟨?_, lt_trans small (by decide)⟩
    rintro _ ⟨⟩
    show 0 + size ≤ (List.replicate size (0 : UInt8)).length
    rw [List.length_replicate, Nat.zero_add]
  rcases beEncode_writes (room.trans_lt small) _ valid with ⟨_, called⟩ | ⟨full, _⟩
  · have filled
        : overwrite (List.replicate size 0) 0 node.encode
          = node.encode ++ List.replicate (size - node.encode.length) 0 := by
      rw [overwrite, List.take_zero, List.nil_append, Nat.zero_add, List.drop_replicate]
    rw [called]
    exact congrArg (fun text => Except.ok (text, (node.encode.length : Int))) filled
  · exact absurd (fun _ => room) full

theorem handshake_encoded (metadataSize : Nat)
    : EncodedIn 1000 (Peer.extendedHandshake metadataSize) := by
  have ids := handshakeDict_printable
  obtain ⟨lower, upper⟩ := MetadataExchange.wrap32_fits metadataSize
  have fits : (Peer.extendedHandshake metadataSize).Fits 10 := by
    intro entry member
    rcases List.mem_pair.mp member with rfl | rfl
    · exact ⟨by decide, numbers_fits ids 7⟩
    · exact ⟨show (ascii "metadata_size").length < 2 ^ 63 by decide, by omega, by omega⟩
  have marks : (ascii "d").length = 1 ∧ (ascii "e").length = 1 ∧ (encodeStr (ascii "m")).length = 3
      ∧ (ascii "metadata_size").length = 13 := by
    decide
  have inner : (numbers [(ascii "ut_metadata", (utMetadataId : Int))]).encode.length ≤ 59 * 1 + 2 :=
    numbers_length_le ids
  have size := encodeEntry_num_length_le (ascii "metadata_size") (wrap32 metadataSize)
    (by decide) (by omega) (by omega)
  have text
      : (Peer.extendedHandshake metadataSize).encode
        = ascii "d"
          ++ (encodeStr (ascii "m") ++ (numbers [(ascii "ut_metadata", (utMetadataId : Int))]).encode
            ++ (encodeEntry (ascii "metadata_size", .num (wrap32 metadataSize)) ++ []))
          ++ ascii "e" := by
    rw [Peer.extendedHandshake, encode, encodeDict_eq]
    rfl
  refine encodedIn_of_length fits ?_ (by decide)
  rw [text]
  simp only [List.length_append, List.length_nil]
  omega

theorem request_encoded (lower : -2 ^ 63 ≤ chunk) (upper : chunk < 2 ^ 63)
    : EncodedIn 1000 (requestDict chunk) :=
  have printable := requestDict_printable lower upper
  encodedIn_of_length (numbers_fits printable 8)
    ((numbers_length_le printable).trans (show 59 * 2 + 2 ≤ 1000 by decide)) (by decide)

theorem data_encoded (lower : -2 ^ 63 ≤ chunk) (upper : chunk < 2 ^ 63) (metadataSize : Nat)
    : EncodedIn 65535 (dataDict chunk (wrap32 metadataSize)) :=
  have printable := dataDict_printable lower upper metadataSize
  encodedIn_of_length (numbers_fits printable 8)
    ((numbers_length_le printable).trans (show 59 * 3 + 2 ≤ 65535 by decide)) (by decide)

/-- The buffers of the three callers of `be_encode` are large enough for every number that they
send, and the peer decodes what they send to the dictionary that was encoded.
-/
theorem messages_encoded (lower : -2 ^ 63 ≤ chunk) (upper : chunk < 2 ^ 63) (metadataSize : Nat)
    : EncodedIn 1000 (Peer.extendedHandshake metadataSize)
      ∧ EncodedIn 1000 (requestDict chunk)
      ∧ EncodedIn 65535 (dataDict chunk (wrap32 metadataSize)) :=
  ⟨handshake_encoded metadataSize, request_encoded lower upper,
    data_encoded lower upper metadataSize⟩

theorem messages_encoded_third
    : EncodedIn 1000 (Peer.extendedHandshake 40000)
      ∧ EncodedIn 1000 (requestDict 3)
      ∧ EncodedIn 65535 (dataDict 3 (wrap32 40000)) :=
  messages_encoded (by decide) (by decide) 40000

end BeNode

-----------------------------------------------------------------------------------------
-- The messages around the dictionaries
-----------------------------------------------------------------------------------------

variable {extendedMsgId : UInt8} {text : Bytes}

theorem extensionMessage_length
    : (Peer.extensionMessage extendedMsgId text).length = 6 + text.length := by
  simp only [Peer.extensionMessage, List.length_append, be32_length, List.length_cons,
    List.length_nil]

theorem extensionMessage_framed (small : 2 + text.length < 2 ^ 32)
    : (Peer.extensionMessage extendedMsgId text).length
      = 4 + ofBe32 ((Peer.extensionMessage extendedMsgId text).take 4) := by
  have front : (Peer.extensionMessage extendedMsgId text).take 4 = be32 (2 + text.length) := by
    rw [Peer.extensionMessage, List.append_assoc]
    exact List.take_left' (be32_length _)
  rw [front, ofBe32_be32 small, extensionMessage_length]
  omega

theorem extensionMessage_id
    : (Peer.extensionMessage extendedMsgId text)[5]? = some extendedMsgId := by
  rw [Peer.extensionMessage, List.append_assoc,
    List.getElem?_append_right (by rw [be32_length]; decide), be32_length]
  rfl

theorem extensionMessage_payload : (Peer.extensionMessage extendedMsgId text).drop 6 = text := by
  rw [Peer.extensionMessage]
  apply List.drop_left'
  rw [List.length_append, be32_length]
  rfl

end UvgTorrent
