import UvgTorrent.Containers.HashMaps

/-! `bencode.c`: decoded values, the lookups in a dictionary, and the encoder. -/

namespace UvgTorrent

open Foundations

/-- `be_node_t`. The entries of a dictionary stand in the order in which they were added. -/
inductive BeNode where
  | str (bytes : Bytes)
  | num (value : Int)
  | list (entries : List BeNode)
  | dict (entries : List (Bytes × BeNode))

/-- The bytes of an ASCII text. -/
def ascii (text : String) : Bytes := text.toList.map fun char => UInt8.ofNat char.toNat

/-- What `%lld` prints. -/
def decimal (value : Int) : Bytes := ascii (toString value)

namespace BeNode

/-- The C string at the start of a buffer, up to its first NUL. -/
def cstr (bytes : Bytes) : CString := bytes.takeWhile (· ≠ 0)

/-- `be_dict_lookup`: the first entry whose key is equal as a C string. -/
def dictLookup (node : BeNode) (key : CString) : Option BeNode :=
  match node with
  | dict entries => (entries.find? fun entry => cstr entry.1 = key).map (·.2)
  | _ => none

/-- `be_dict_lookup_num`. -/
def dictLookupNum (node : BeNode) (key : CString) : Int :=
  match node.dictLookup key with
  | some (num value) => value
  | _ => -1

/-- `be_dict_lookup_cstr`. -/
def dictLookupCstr (node : BeNode) (key : CString) : Option Bytes :=
  match node.dictLookup key with
  | some (str bytes) => some bytes
  | _ => none

/-- `be_encode_str`. -/
def encodeStr (bytes : Bytes) : Bytes := decimal bytes.length ++ ascii ":" ++ bytes

mutual

/-- `be_encode` into a buffer that is large enough. -/
def encode : BeNode → Bytes
  | str bytes => encodeStr bytes
  | num value => ascii "i" ++ decimal value ++ ascii "e"
  | list entries => ascii "l" ++ encodeList entries ++ ascii "e"
  | dict entries => ascii "d" ++ encodeDict entries ++ ascii "e"

def encodeList : List BeNode → Bytes
  | [] => []
  | entry :: rest => encode entry ++ encodeList rest

def encodeDict : List (Bytes × BeNode) → Bytes
  | [] => []
  | (key, value) :: rest => encodeStr key ++ encode value ++ encodeDict rest

end

end BeNode

/-- What `be_decode` gives: the decoded value, and how far it has read. -/
abbrev BeDecode := Bytes → Option (BeNode × Nat)

end UvgTorrent
