import UvgTorrent.Foundations.HostOrder
import UvgTorrent.Peers.Connections

/-! The request of `tracker_announce`: a packed struct in the memory of a little-endian host, whose
fields go through `net_utils`. The address is swapped once too often, and the client id is cut to
its first character.
-/

namespace UvgTorrent

open Foundations

-----------------------------------------------------------------------------------------
-- `net_utils.c` on a little-endian host
-----------------------------------------------------------------------------------------

/-- `htonl_util`; its argument is converted to a `uint32_t`. -/
def htonl (input : Nat) : Nat := byteSwap 4 input

/-- `htons_util`. -/
def htons (input : Nat) : Nat := byteSwap 2 input

/-- `byteswap64`. -/
def byteswap64 (input : Nat) : Nat :=
  let v1 := byteSwap 4 (input &&& 0xFFFFFFFF)
  let v2 := byteSwap 4 (input >>> 32)
  (v1 <<< 32) ||| v2

/-- `htonll_util`. -/
def htonll (input : Nat) : Nat := byteswap64 input

theorem byteswap64_eq (input : Nat) : byteswap64 input = byteSwap 8 input := by
  have low : input &&& 0xFFFFFFFF = input % 256 ^ 4 := by
    rw [show 0xFFFFFFFF = 2 ^ 32 - 1 by norm_num, Nat.and_two_pow_sub_one_eq_mod]
    norm_num
  have high : byteSwap 4 (input >>> 32) < 2 ^ 32 := by
    have bound := byteSwap_lt 4 (input >>> 32)
    norm_num at bound ⊢
    exact bound
  rw [byteswap64, low, byteSwap_mod, ← Nat.shiftLeft_add_eq_or_of_lt high, Nat.shiftLeft_eq,
    Nat.shiftRight_eq_div_pow, show 8 = 4 + 4 by norm_num, byteSwap_add, Nat.add_comm, Nat.mul_comm]
  norm_num

-----------------------------------------------------------------------------------------
-- `struct TRACKER_UDP_ANNOUNCE_SEND`
-----------------------------------------------------------------------------------------

/-- The fields as the host keeps them. -/
structure TrackerUdpAnnounceSend where
  connectionId : Nat
  action : Nat
  transactionId : Nat
  infoHash : Bytes
  peerId : Bytes
  downloaded : Nat
  left : Nat
  uploaded : Nat
  event : Nat
  ip : Nat
  key : Nat
  numWant : Nat
  port : Nat
  extensions : Nat

/-- The fields in memory. -/
def TrackerUdpAnnounceSend.fields (send : TrackerUdpAnnounceSend) : List Bytes :=
  [leBytes 8 send.connectionId, leBytes 4 send.action, leBytes 4 send.transactionId,
    send.infoHash, send.peerId, leBytes 8 send.downloaded, leBytes 8 send.left,
    leBytes 8 send.uploaded, leBytes 4 send.event, leBytes 4 send.ip, leBytes 4 send.key,
    leBytes 4 send.numWant, leBytes 2 send.port, leBytes 2 send.extensions]

/-- The packed struct, which is the datagram. -/
def TrackerUdpAnnounceSend.datagram (send : TrackerUdpAnnounceSend) : Bytes := send.fields.flatten

/-- An IPv4 address by its four octets, in the order in which its text names them. -/
structure Ipv4Address where
  octets : Bytes
  sized : octets.length = 4

/-- `s_addr` after `inet_pton`, which stores the octets in their order. -/
def Ipv4Address.sAddr (address : Ipv4Address) : Nat := ofLeBytes address.octets

/-- What an announce tells: the tracker's `connection_id` and `public_ip`, the random transaction id
and the arguments of `tracker_announce`.
-/
structure AnnounceArgs where
  connectionId : UInt64
  transactionId : UInt32
  downloaded : UInt64
  left : UInt64
  uploaded : UInt64
  port : UInt16
  infoHash : InfoHash
  publicIp : Ipv4Address

/-- The client id string of `tracker_announce`. -/
def clientId : Bytes := ascii "UVG01234567891234567"

/-- `announce_send`. The initializer of `peer_id` is the first character of the string; the rest of
the array is zero.
-/
def announceSend (args : AnnounceArgs) : TrackerUdpAnnounceSend :=
  {
    connectionId := htonll args.connectionId.toNat
    action := htonl 1
    transactionId := htonl args.transactionId.toNat
    infoHash := args.infoHash.bytes
    peerId := clientId.take 1 ++ List.replicate 19 0
    downloaded := htonll args.downloaded.toNat
    left := htonll args.left.toNat
    uploaded := htonll args.uploaded.toNat
    event := htonl 0
    ip := htonl args.publicIp.sAddr
    key := htonl 1
    -- the `uint32_t` of -1
    numWant := htonl 0xFFFFFFFF
    port := htons args.port.toNat
    extensions := htons 0
  }

/-- The numbers and the info hash are read back as they were given. -/
structure EncodesNumbers (args : AnnounceArgs) (datagram : Bytes) : Prop where
  sized : datagram.length = 100
  connectionId : ofBe32 (slice datagram 0 8) = args.connectionId.toNat
  action : ofBe32 (slice datagram 8 4) = 1
  transactionId : ofBe32 (slice datagram 12 4) = args.transactionId.toNat
  infoHash : slice datagram 16 20 = args.infoHash.bytes
  downloaded : ofBe32 (slice datagram 56 8) = args.downloaded.toNat
  left : ofBe32 (slice datagram 64 8) = args.left.toNat
  uploaded : ofBe32 (slice datagram 72 8) = args.uploaded.toNat
  event : ofBe32 (slice datagram 80 4) = 0
  key : ofBe32 (slice datagram 88 4) = 1
  numWant : ofBe32 (slice datagram 92 4) = 0xFFFFFFFF
  port : ofBe32 (slice datagram 96 2) = args.port.toNat
  extensions : ofBe32 (slice datagram 98 2) = 0

/-- The datagram says what it is to say, the address and the client id included. -/
structure Encodes (args : AnnounceArgs) (datagram : Bytes) : Prop
    extends EncodesNumbers args datagram where
  ip : slice datagram 84 4 = args.publicIp.octets
  peerId : slice datagram 36 20 = clientId

-----------------------------------------------------------------------------------------
-- The fields read back
-----------------------------------------------------------------------------------------

theorem ofBe32_htonl {value : Nat} (fits : value < 2 ^ 32)
    : ofBe32 (leBytes 4 (htonl value)) = value :=
  ofBe32_byteSwap (by norm_num; omega)

theorem ofBe32_htons {value : Nat} (fits : value < 2 ^ 16)
    : ofBe32 (leBytes 2 (htons value)) = value :=
  ofBe32_byteSwap (by norm_num; omega)

theorem ofBe32_htonll {value : Nat} (fits : value < 2 ^ 64)
    : ofBe32 (leBytes 8 (htonll value)) = value := by
  rw [htonll, byteswap64_eq]
  exact ofBe32_byteSwap (by norm_num; omega)

/-- The address was in network order before its swap. -/
theorem leBytes_htonl_sAddr (address : Ipv4Address)
    : leBytes 4 (htonl address.sAddr) = address.octets.reverse := by
  have stored := leBytes_ofLeBytes address.octets
  rw [address.sized] at stored
  rw [htonl, leBytes_byteSwap, Ipv4Address.sAddr, stored]

theorem peerId_length : (clientId.take 1 ++ List.replicate 19 0).length = 20 := by
  decide

/-- The lengths of the fields. -/
theorem fields_lengths (args : AnnounceArgs)
    : (announceSend args).fields.map List.length
      = [8, 4, 4, 20, 20, 8, 8, 8, 4, 4, 4, 4, 2, 2] := by
  simp only [TrackerUdpAnnounceSend.fields, announceSend, List.map_cons, List.map_nil,
    leBytes_length, args.infoHash.sized, peerId_length]

/-- A field of the datagram, by its place among the fields. -/
theorem datagram_field (args : AnnounceArgs) {index start length : Nat} {field : Bytes}
    (found : (announceSend args).fields[index]? = some field)
    (starts : ([8, 4, 4, 20, 20, 8, 8, 8, 4, 4, 4, 4, 2, 2].take index).sum = start)
    (sized : field.length = length)
    : slice (announceSend args).datagram start length = field := by
  have field := slice_flatten found
  rw [List.map_take, fields_lengths, starts, sized] at field
  exact field

theorem announceSend_numbers (args : AnnounceArgs)
    : EncodesNumbers args (announceSend args).datagram := by
  constructor
  · rw [TrackerUdpAnnounceSend.datagram, List.length_flatten, fields_lengths]
    rfl
  · rw [@datagram_field args 0 0 8 _ rfl rfl (leBytes_length ..)]
    exact ofBe32_htonll args.connectionId.toNat_lt
  · rw [@datagram_field args 1 8 4 _ rfl rfl (leBytes_length ..)]
    exact ofBe32_htonl (by norm_num)
  · rw [@datagram_field args 2 12 4 _ rfl rfl (leBytes_length ..)]
    exact ofBe32_htonl args.transactionId.toNat_lt
  · exact @datagram_field args 3 16 20 _ rfl rfl args.infoHash.sized
  · rw [@datagram_field args 5 56 8 _ rfl rfl (leBytes_length ..)]
    exact ofBe32_htonll args.downloaded.toNat_lt
  · rw [@datagram_field args 6 64 8 _ rfl rfl (leBytes_length ..)]
    exact ofBe32_htonll args.left.toNat_lt
  · rw [@datagram_field args 7 72 8 _ rfl rfl (leBytes_length ..)]
    exact ofBe32_htonll args.uploaded.toNat_lt
  · rw [@datagram_field args 8 80 4 _ rfl rfl (leBytes_length ..)]
    exact ofBe32_htonl (by norm_num)
  · rw [@datagram_field args 10 88 4 _ rfl rfl (leBytes_length ..)]
    exact ofBe32_htonl (by norm_num)
  · rw [@datagram_field args 11 92 4 _ rfl rfl (leBytes_length ..)]
    exact ofBe32_htonl (by norm_num)
  · rw [@datagram_field args 12 96 2 _ rfl rfl (leBytes_length ..)]
    exact ofBe32_htons args.port.toNat_lt
  · rw [@datagram_field args 13 98 2 _ rfl rfl (leBytes_length ..)]
    exact ofBe32_htons (by norm_num)

/-- Of no announce is the datagram what it is to be: the numbers and the info hash are, but the
address has its octets in the opposite order, and of the client id only the first character is
sent.
-/
theorem announceSend_never_encodes (args : AnnounceArgs)
    : EncodesNumbers args (announceSend args).datagram
      ∧ slice (announceSend args).datagram 84 4 = args.publicIp.octets.reverse
      ∧ slice (announceSend args).datagram 36 20 = clientId.take 1 ++ List.replicate 19 0
      ∧ ¬ Encodes args (announceSend args).datagram := by
  have ip : slice (announceSend args).datagram 84 4 = args.publicIp.octets.reverse := by
    rw [@datagram_field args 9 84 4 _ rfl rfl (leBytes_length ..)]
    exact leBytes_htonl_sAddr args.publicIp
  have peerId : slice (announceSend args).datagram 36 20
      = clientId.take 1 ++ List.replicate 19 0 :=
    @datagram_field args 4 36 20 _ rfl rfl peerId_length
  refine ⟨announceSend_numbers args, ip, peerId, ?_⟩
  intro encodes
  have whole := encodes.peerId
  rw [peerId] at whole
  revert whole
  decide

/-- A first announce from 192.168.1.2, with 1000 bytes left. -/
def firstAnnounce : AnnounceArgs :=
  {
    connectionId := 1
    transactionId := 420
    downloaded := 0
    left := 1000
    uploaded := 0
    port := 6881
    infoHash := .filled 7
    publicIp := ⟨[192, 168, 1, 2], rfl⟩
  }

/-- It is sent from 2.1.168.192, and with a client id of one character. -/
theorem firstAnnounce_garbled
    : slice (announceSend firstAnnounce).datagram 84 4 = [2, 1, 168, 192]
      ∧ ¬ Encodes firstAnnounce (announceSend firstAnnounce).datagram := by
  refine ⟨by decide +kernel, ?_⟩
  intro encodes
  have ip := encodes.ip
  revert ip
  decide +kernel

end UvgTorrent
