import UvgTorrent.Bencode.Nodes
import UvgTorrent.Foundations.FallibleRuns
import UvgTorrent.Outcomes

/-! `torrent_new` and `torrent_parse_magnet_uri`, with what they use of `yuarel.c`. A link is
accepted without an info hash, parameters without a value are dereferenced, and pairs of the info
hash that are no digits leave their byte as it was.
-/

namespace UvgTorrent

open Foundations

-----------------------------------------------------------------------------------------
-- `yuarel.c`
-----------------------------------------------------------------------------------------

/-- `find_and_terminate`: the string up to the character, and what stands behind it. -/
def findAndTerminate (find : UInt8) : CString → CString × Option CString
  | [] => ([], none)
  | byte :: rest =>
      if byte = find then ([], some rest)
      else
        let (front, behind) := findAndTerminate find rest
        (byte :: front, behind)

/-- `parse_scheme`. -/
def parseScheme (str : CString) : Option CString :=
  match findAndTerminate 58 str with
  | (_ :: _, some (47 :: 47 :: rest)) => some rest
  | _ => none

/-- The host that `yuarel_parse` takes from a hostname with an optional port; `none` stands for its
failure.
-/
def parseHostname (host : CString) : Option CString :=
  match findAndTerminate 58 host with
  | (host, none) => if host = [] then none else some host
  | (host, some port) => if host = [] ∨ port = [] then none else some host

/-- The host that `yuarel_parse` takes from what stands between the scheme and the query. -/
def parseHost (host : CString) : Option CString :=
  let (host, _) := findAndTerminate 47 host
  match findAndTerminate 64 host with
  | (host, none) => parseHostname host
  | (username, some host) =>
      if username = [] ∨ (findAndTerminate 58 username).2 = none then none else parseHostname host

/-- The fields of `struct yuarel` that are read. A relative URL has no host. -/
structure Yuarel where
  host : Option CString
  query : Option CString
  deriving DecidableEq, Repr

/-- `yuarel_parse`; `none` stands for the result -1. -/
def yuarelParse (u : CString) : Option Yuarel :=
  let (u, _) := findAndTerminate 35 u
  let (u, query) := findAndTerminate 63 u
  if u.head? = some 47 then some { host := none, query }
  else ((parseScheme u).bind parseHost).map fun host => { host := some host, query }

/-- `struct yuarel_param`. -/
structure YuarelParam where
  key : CString
  val : Option CString
  deriving DecidableEq, Repr

/-- The split of a parameter at its first `=`. -/
def splitParam (text : CString) : YuarelParam :=
  let (key, val) := findAndTerminate 61 text
  { key, val }

/-- The loop of `yuarel_parse_query`, for so many parameters besides the next one. The last one
keeps the rest of the query.
-/
def splitParams (delimiter : UInt8) : Nat → CString → List YuarelParam
  | 0, query => [splitParam query]
  | more + 1, query =>
      match findAndTerminate delimiter query with
      | (param, none) => [splitParam param]
      | (param, some query) => splitParam param :: splitParams delimiter more query

/-- `yuarel_parse_query`; a result of -1 has no parameters. -/
def yuarelParseQuery (query : Option CString) (delimiter : UInt8) (maxParams : Nat)
    : List YuarelParam :=
  match query with
  | none | some [] => []
  | some query => splitParams delimiter (maxParams - 1) query

-----------------------------------------------------------------------------------------
-- Hexadecimal bytes
-----------------------------------------------------------------------------------------

/-- `strrchr`, with the step behind the character that it finds. -/
def behindLast (find : UInt8) : CString → Option CString
  | [] => none
  | byte :: rest =>
      match behindLast find rest with
      | some behind => some behind
      | none => if byte = find then some rest else none

def hexDigit (byte : UInt8) : Option UInt8 :=
  if 48 ≤ byte ∧ byte ≤ 57 then some (byte - 48)
  else if 65 ≤ byte ∧ byte ≤ 70 then some (byte - 55)
  else if 97 ≤ byte ∧ byte ≤ 102 then some (byte - 87)
  else none

def isSpace (byte : UInt8) : Bool := byte = 32 ∨ 9 ≤ byte ∧ byte ≤ 13

/-- `sscanf` with `"%2hhx"`: behind white space, two characters at most, of which the first may be a
sign. Of the prefix `0x` the zero is what is stored.
-/
def scanHexByte (text : CString) : Option UInt8 :=
  match text.dropWhile isSpace with
  | [] => none
  | [digit] => hexDigit digit
  | first :: second :: _ =>
      match hexDigit first, hexDigit second with
      | some high, some low => some (16 * high + low)
      | some value, none => some value
      | none, some value =>
          if first = 43 then some value else if first = 45 then some (0 - value) else none
      | none, none => none

-----------------------------------------------------------------------------------------
-- The parser
-----------------------------------------------------------------------------------------

/-- `MAX_TRACKERS`. -/
def maxTrackers : Nat := 5

/-- What a call meets of libcurl: `curl_easy_unescape` of a URL, up to the first NUL of what it
decodes, and whether it refuses a missing URL or asks for its length.
-/
structure Libcurl where
  unescape : CString → Option CString
  refusesNull : Bool

/-- The fields of `struct Tracker` that its URL sets, without the port. -/
structure MagnetTracker where
  url : CString
  host : CString
  deriving DecidableEq, Repr

/-- `tracker_new` when memory is available; `none` stands for `NULL`. The host of a relative URL is
copied although there is none.
-/
def trackerNew (curl : Libcurl) (url : Option CString) : Except Fault (Option MagnetTracker) :=
  match url with
  | none => if curl.refusesNull then .ok none else .error .nullPointer
  | some url =>
      match curl.unescape url with
      | none => .ok none
      | some decodedUrl =>
          match yuarelParse decodedUrl with
          | none => .ok none
          | some { host := none, .. } => .error .nullPointer
          | some { host := some host, .. } => .ok (some { url := decodedUrl, host })

/-- The fields of `struct Torrent` that a magnet link sets. -/
structure MagnetTorrent where
  name : Option CString
  infoHash : Option CString
  infoHashHex : Fin 20 → UInt8
  trackers : List MagnetTracker

namespace MagnetTorrent

/-- `torrent_add_tracker`; `none` stands for its failure. -/
def addTracker (curl : Libcurl) (t : MagnetTorrent) (url : Option CString)
    : Except Fault (Option MagnetTorrent) :=
  if t.trackers.length < maxTrackers then
    (trackerNew curl url).map
      (·.map fun tracker => { t with trackers := t.trackers ++ [tracker] })
  else .ok (some t)

/-- The loop over the bytes of the info hash; where `sscanf` fails the byte stays as it was. -/
def scanInfoHash (trimmedInfoHash : CString) (infoHashHex : Fin 20 → UInt8) : Fin 20 → UInt8 :=
  fun count => (scanHexByte (trimmedInfoHash.drop (2 * count))).getD (infoHashHex count)

/-- The body of the loop of `torrent_parse_magnet_uri`; `none` stands for its failure. The last pair
of the info hash is read 38 characters behind the colon.
-/
def parseParam (curl : Libcurl) (t : MagnetTorrent) (param : YuarelParam)
    : Except Fault (Option MagnetTorrent) :=
  if param.key = ascii "dn" then
    match param.val with
    | none => .error .nullPointer
    | some val => .ok (some { t with name := some val })
  else if param.key = ascii "xt" then
    match param.val with
    | none => .error .nullPointer
    | some val =>
        match behindLast 58 val with
        | none => .error .nullPointer
        | some trimmedInfoHash =>
            if trimmedInfoHash.length < 38 then .error .textBounds
            else
              .ok
                (some
                  {
                    t with
                    infoHash := some val
                    infoHashHex := scanInfoHash trimmedInfoHash t.infoHashHex
                  })
  else if param.key = ascii "tr" then t.addTracker curl param.val
  else .ok (some t)

/-- The loop of `torrent_parse_magnet_uri` over the parameters in the order it reads them. -/
def parseParams (curl : Libcurl) (t : MagnetTorrent)
    : List YuarelParam → Except Fault (Option MagnetTorrent)
  | [] => .ok (some t)
  | param :: rest =>
      (t.parseParam curl param).bind fun
        | none => .ok none
        | some t => t.parseParams curl rest

/-- The torrent before the link is parsed; nothing is written to `info_hash_hex`. -/
def blank (infoHashHex : Fin 20 → UInt8) : MagnetTorrent :=
  { name := none, infoHash := none, infoHashHex, trackers := [] }

end MagnetTorrent

/-- The URL that `torrent_parse_magnet_uri` parses. -/
def magnetUrl (magnetUri : CString) : CString := ascii "http://blank.com" ++ magnetUri.drop 7

/-- The parameters of a link that is one and whose URL can be parsed. -/
def linkParams (magnetUri : CString) : Option (List YuarelParam) :=
  if (ascii "magnet:").isPrefixOf magnetUri then
    (yuarelParse (magnetUrl magnetUri)).map (yuarelParseQuery ·.query 38 10)
  else none

/-- `torrent_new` when memory is available; `infoHashHex` is what the memory of the struct holds.
The parameters are read from the last to the first.
-/
def torrentNew (curl : Libcurl) (magnetUri : CString) (infoHashHex : Fin 20 → UInt8)
    : Except Fault (Option MagnetTorrent) :=
  match linkParams magnetUri with
  | none => .ok none
  | some params => (MagnetTorrent.blank infoHashHex).parseParams curl params.reverse

-----------------------------------------------------------------------------------------
-- What a link says
-----------------------------------------------------------------------------------------

/-- The text behind the last colon of a value. -/
def YuarelParam.hashText (param : YuarelParam) : Option CString :=
  param.val.bind (behindLast 58)

/-- The texts behind the last colon of the `xt` parameters. -/
def hashTexts (params : List YuarelParam) : List CString :=
  (params.filter (·.key = ascii "xt")).filterMap YuarelParam.hashText

/-- The text starts with 40 hexadecimal digits, which denote the bytes. -/
def DenotesHash (text : CString) (digest : Fin 20 → UInt8) : Prop :=
  ∀ count : Fin 20, ∃ high low,
    text[2 * count.val]?.bind hexDigit = some high
    ∧ text[2 * count.val + 1]?.bind hexDigit = some low
    ∧ digest count = 16 * high + low

/-- The call returns, and a link that it accepts has values for its parameters and an `xt` parameter
with the digits of the info hash.
-/
def AcceptsOnlyHashes (curl : Libcurl) (magnetUri : CString) (infoHashHex : Fin 20 → UInt8)
    : Prop :=
  ∃ result, torrentNew curl magnetUri infoHashHex = .ok result
    ∧ ∀ t, result = some t →
        ∃ params, linkParams magnetUri = some params
          ∧ (∀ param ∈ params,
              param.key ∈ [ascii "dn", ascii "xt", ascii "tr"] → param.val.isSome)
          ∧ ∃ text ∈ hashTexts params, DenotesHash text t.infoHashHex

/-- A parameter that the parser gets past behind so many trackers: `dn` has a value, the text of
`xt` reaches its last pair, and a `tr` for which there is room makes a tracker.
-/
structure YuarelParam.Readable (curl : Libcurl) (known : Nat) (param : YuarelParam) : Prop where
  hasName : param.key = ascii "dn" → param.val.isSome
  hasHash : param.key = ascii "xt" → ∃ text, param.hashText = some text ∧ 38 ≤ text.length
  hasTracker : param.key = ascii "tr" → known < maxTrackers →
    ∃ tracker, trackerNew curl param.val = .ok (some tracker)

/-- The `tr` parameters among those that were read. -/
def trackerParams (reading : List YuarelParam) : Nat := reading.countP (·.key = ascii "tr")

/-- Every parameter is readable where it is read. -/
def AllReadable (curl : Libcurl) (known : Nat) (reading : List YuarelParam) : Prop :=
  ∀ before param after, reading = before ++ param :: after →
    param.Readable curl (known + trackerParams before)

/-- Behind readable parameters there is a `tr` for which there is room, and `tracker_new` refuses
it.
-/
def StopsAtTracker (curl : Libcurl) (known : Nat) (reading : List YuarelParam) : Prop :=
  ∃ before param after,
    reading = before ++ param :: after
    ∧ AllReadable curl known before
    ∧ param.key = ascii "tr"
    ∧ known + trackerParams before < maxTrackers
    ∧ trackerNew curl param.val = .ok none

/-- One of the texts starts with 40 hexadecimal digits, and for each pair the first of the texts in
which `sscanf` reads a byte there has the byte of that one.
-/
def HashDecided (texts : List CString) : Prop :=
  ∃ text ∈ texts, ∃ digest, DenotesHash text digest
    ∧ ∀ count : Fin 20,
        texts.findSome? (fun text => scanHexByte (text.drop (2 * count))) = some (digest count)

-----------------------------------------------------------------------------------------
-- Pairs of the info hash
-----------------------------------------------------------------------------------------

theorem isSpace_of_hexDigit {byte value : UInt8} (digit : hexDigit byte = some value)
    : isSpace byte = false := by
  unfold isSpace
  unfold hexDigit at digit
  rw [decide_eq_false_iff_not]
  rintro (rfl | ⟨above, below⟩)
  · cases digit
  · have small : ¬ 48 ≤ byte := by
      rw [UInt8.le_iff_toNat_le] at *
      simp at *
      omega
    have lower : ¬ 65 ≤ byte := fun upper => small (UInt8.le_trans (by decide) upper)
    have upper : ¬ 97 ≤ byte := fun upper => small (UInt8.le_trans (by decide) upper)
    simp [small, lower, upper] at digit

/-- Two digits are read as the byte that they denote. -/
theorem scanHexByte_of_digits {text : CString} {position : Nat} {high low : UInt8}
    (first : text[position]?.bind hexDigit = some high)
    (second : text[position + 1]?.bind hexDigit = some low)
    : scanHexByte (text.drop position) = some (16 * high + low) := by
  obtain ⟨byte, found, digit⟩ := Option.bind_eq_some_iff.mp first
  obtain ⟨next, foundNext, digitNext⟩ := Option.bind_eq_some_iff.mp second
  obtain ⟨inside, rfl⟩ := List.getElem?_eq_some_iff.mp found
  obtain ⟨insideNext, rfl⟩ := List.getElem?_eq_some_iff.mp foundNext
  rw [List.drop_eq_getElem_cons inside, List.drop_eq_getElem_cons insideNext]
  simp only [scanHexByte, List.dropWhile_cons, isSpace_of_hexDigit digit, digit, digitNext,
    Bool.false_eq_true, if_false]

theorem DenotesHash.scan {text : CString} {digest : Fin 20 → UInt8}
    (denotes : DenotesHash text digest) (count : Fin 20)
    : scanHexByte (text.drop (2 * count)) = some (digest count) := by
  obtain ⟨high, low, first, second, byte⟩ := denotes count
  rw [byte]
  exact scanHexByte_of_digits first second

/-- A text that starts with the digits of a hash lets each pair be read by some text. -/
theorem DenotesHash.findSome {texts : List CString} {text : CString} {digest : Fin 20 → UInt8}
    (denotes : DenotesHash text digest) (member : text ∈ texts) (count : Fin 20)
    : ∃ byte,
        texts.findSome? (fun text => scanHexByte (text.drop (2 * count))) = some byte := by
  rw [← Option.isSome_iff_exists, List.findSome?_isSome_iff]
  exact ⟨text, member, by simp [denotes.scan count]⟩

-----------------------------------------------------------------------------------------
-- The parameters of a link
-----------------------------------------------------------------------------------------

theorem hashTexts_append (first second : List YuarelParam)
    : hashTexts (first ++ second) = hashTexts first ++ hashTexts second := by
  unfold hashTexts
  rw [List.filter_append, List.filterMap_append]

theorem hashTexts_hash {param : YuarelParam} {text : CString} (hash : param.key = ascii "xt")
    (found : param.hashText = some text)
    : hashTexts [param] = [text] := by
  simp [hashTexts, hash, found]

theorem hashTexts_other {param : YuarelParam} (other : param.key ≠ ascii "xt")
    : hashTexts [param] = [] := by
  simp [hashTexts, other]

namespace MagnetTorrent

/-- What the info hash is behind parameters with these texts. -/
def scannedHash (texts : List CString) (infoHashHex : Fin 20 → UInt8) : Fin 20 → UInt8 :=
  fun count =>
    (texts.findSome? fun text => scanHexByte (text.drop (2 * count))).getD (infoHashHex count)

theorem scannedHash_append (first second : List CString) (infoHashHex : Fin 20 → UInt8)
    : scannedHash (first ++ second) infoHashHex
      = scannedHash first (scannedHash second infoHashHex) := by
  funext count
  unfold scannedHash
  rw [List.findSome?_append]
  cases first.findSome? fun text => scanHexByte (text.drop (2 * count)) <;> simp

theorem scannedHash_single (text : CString) (infoHashHex : Fin 20 → UInt8)
    : scannedHash [text] infoHashHex = scanInfoHash text infoHashHex := by
  funext count
  unfold scannedHash scanInfoHash
  rw [List.findSome?_singleton]

/-- One more `tr` parameter, if it is one. -/
def trackersBehind (known : Nat) (param : YuarelParam) : Nat :=
  if param.key = ascii "tr" then known + 1 else known

theorem trackersBehind_add (known : Nat) (param : YuarelParam) (before : List YuarelParam)
    : trackersBehind known param + trackerParams before
      = known + trackerParams (param :: before) := by
  unfold trackersBehind trackerParams
  rw [List.countP_cons]
  by_cases tracker : param.key = ascii "tr"
  · simp only [tracker, decide_true, if_true]
    omega
  · simp only [tracker, decide_false, Bool.false_eq_true, if_false, Nat.add_zero]

theorem allReadable_cons {curl : Libcurl} {known : Nat} {param : YuarelParam}
    {rest : List YuarelParam}
    : AllReadable curl known (param :: rest)
      ↔ param.Readable curl known ∧ AllReadable curl (trackersBehind known param) rest := by
  constructor
  · intro all
    refine ⟨all [] param rest rfl, fun before other after split => ?_⟩
    rw [trackersBehind_add]
    exact all (param :: before) other after (by rw [split, List.cons_append])
  · rintro ⟨readable, others⟩ before other after split
    cases before with
    | nil =>
        cases split
        exact readable
    | cons first before =>
        cases split
        rw [← trackersBehind_add]
        exact others before other after rfl

/-- A readable parameter has a value where one is used, if a tracker has a URL. -/
theorem hasValue_of_allReadable {curl : Libcurl} {known : Nat} {reading : List YuarelParam}
    {param : YuarelParam} (readable : AllReadable curl known reading) (member : param ∈ reading)
    (tracked : param.key = ascii "tr" → param.val.isSome)
    (used : param.key ∈ [ascii "dn", ascii "xt", ascii "tr"])
    : param.val.isSome := by
  obtain ⟨before, after, split⟩ := List.append_of_mem member
  have here := readable before param after split
  rw [List.mem_cons, List.mem_cons, List.mem_singleton] at used
  rcases used with name | hash | tracker
  · exact here.hasName name
  · obtain ⟨text, found, _⟩ := here.hasHash hash
    obtain ⟨val, valued, _⟩ := Option.bind_eq_some_iff.mp found
    rw [valued]
    rfl
  · exact tracked tracker

/-- The parser stops at a parameter or behind it. -/
theorem stopsAtTracker_cons {curl : Libcurl} {known : Nat} {param : YuarelParam}
    {rest : List YuarelParam}
    : StopsAtTracker curl known (param :: rest)
      ↔ (param.key = ascii "tr" ∧ known < maxTrackers ∧ trackerNew curl param.val = .ok none)
        ∨ (param.Readable curl known
          ∧ StopsAtTracker curl (trackersBehind known param) rest) := by
  constructor
  · rintro ⟨before, refused, after, split, readable, tracker, room, refuses⟩
    cases before with
    | nil =>
        cases split
        exact .inl ⟨tracker, room, refuses⟩
    | cons first before =>
        cases split
        obtain ⟨readableFirst, others⟩ := allReadable_cons.mp readable
        rw [← trackersBehind_add] at room
        exact .inr ⟨readableFirst, before, refused, after, rfl, others, tracker, room, refuses⟩
  · rintro (⟨tracker, room, refuses⟩ | ⟨readable, before, refused, after, rfl, others, rest⟩)
    · exact ⟨[], param, rest, rfl, by simp [AllReadable], tracker, room, refuses⟩
    · obtain ⟨tracker, room, refuses⟩ := rest
      rw [trackersBehind_add] at room
      exact
        ⟨param :: before, refused, after, rfl, allReadable_cons.mpr ⟨readable, others⟩, tracker,
          room, refuses⟩

/-- A readable parameter is read, and an `xt` parameter scans its text into the info hash. -/
theorem parseParam_readable {curl : Libcurl} {t : MagnetTorrent} {known : Nat}
    {param : YuarelParam} (readable : param.Readable curl known)
    (counted : t.trackers.length = min maxTrackers known)
    : ∃ next, t.parseParam curl param = .ok (some next)
      ∧ next.infoHashHex = scannedHash (hashTexts [param]) t.infoHashHex
      ∧ next.trackers.length = min maxTrackers (trackersBehind known param) := by
  unfold parseParam
  split_ifs with name hash tracker
  · have other : param.key ≠ ascii "xt" := by rw [name]; decide
    have noTracker : param.key ≠ ascii "tr" := by rw [name]; decide
    obtain ⟨val, valued⟩ := Option.isSome_iff_exists.mp (readable.hasName name)
    rw [valued]
    refine ⟨_, rfl, ?_, ?_⟩
    · rw [hashTexts_other other]
      rfl
    · rw [trackersBehind, if_neg noTracker]
      exact counted
  · have noTracker : param.key ≠ ascii "tr" := by rw [hash]; decide
    obtain ⟨text, found, long⟩ := readable.hasHash hash
    obtain ⟨val, valued, behind⟩ := Option.bind_eq_some_iff.mp found
    simp only [valued, behind, if_neg (Nat.not_lt.mpr long)]
    refine ⟨_, rfl, ?_, ?_⟩
    · rw [hashTexts_hash hash found, scannedHash_single]
    · rw [trackersBehind, if_neg noTracker]
      exact counted
  · rw [hashTexts_other hash, trackersBehind, if_pos tracker, addTracker]
    by_cases room : t.trackers.length < maxTrackers
    · obtain ⟨new, made⟩ := readable.hasTracker tracker (by omega)
      rw [if_pos room, made]
      refine ⟨_, rfl, rfl, ?_⟩
      rw [List.length_append, List.length_singleton]
      omega
    · rw [if_neg room]
      exact ⟨t, rfl, rfl, by omega⟩
  · refine ⟨t, rfl, ?_, ?_⟩
    · rw [hashTexts_other hash]
      rfl
    · rw [trackersBehind, if_neg tracker]
      exact counted

/-- A parameter that the parser gets past is readable. -/
theorem readable_of_parseParam {curl : Libcurl} {t next : MagnetTorrent} {known : Nat}
    {param : YuarelParam} (parsed : t.parseParam curl param = .ok (some next))
    (counted : t.trackers.length = min maxTrackers known)
    : param.Readable curl known := by
  constructor
  · intro name
    rw [parseParam, if_pos name] at parsed
    cases valued : param.val with
    | none => simp [valued] at parsed
    | some val => rfl
  · intro hash
    have noName : param.key ≠ ascii "dn" := by rw [hash]; decide
    rw [parseParam, if_neg noName, if_pos hash] at parsed
    cases valued : param.val with
    | none => simp [valued] at parsed
    | some val =>
        cases behind : behindLast 58 val with
        | none => simp [valued, behind] at parsed
        | some text =>
            refine ⟨text, by rw [YuarelParam.hashText, valued]; exact behind, ?_⟩
            by_contra short
            simp [valued, behind, Nat.not_le.mp short] at parsed
  · intro tracker room
    have noName : param.key ≠ ascii "dn" := by rw [tracker]; decide
    have noHash : param.key ≠ ascii "xt" := by rw [tracker]; decide
    have free : t.trackers.length < maxTrackers := by omega
    rw [parseParam, if_neg noName, if_neg noHash, if_pos tracker, addTracker, if_pos free] at parsed
    cases made : trackerNew curl param.val with
    | error fault => simp [made, Except.map] at parsed
    | ok result =>
        cases result with
        | none => simp [made, Except.map] at parsed
        | some new => exact ⟨new, rfl⟩

/-- Only a tracker that is refused, and for which there is room, makes the parser give up. -/
theorem parseParam_refuses_iff {curl : Libcurl} {t : MagnetTorrent} {known : Nat}
    {param : YuarelParam} (counted : t.trackers.length = min maxTrackers known)
    : t.parseParam curl param = .ok none
      ↔ param.key = ascii "tr"
        ∧ known < maxTrackers
        ∧ trackerNew curl param.val = .ok none := by
  by_cases tracker : param.key = ascii "tr"
  · have noName : param.key ≠ ascii "dn" := by rw [tracker]; decide
    have noHash : param.key ≠ ascii "xt" := by rw [tracker]; decide
    have room : t.trackers.length < maxTrackers ↔ known < maxTrackers := by omega
    rw [parseParam, if_neg noName, if_neg noHash, if_pos tracker, addTracker]
    by_cases free : t.trackers.length < maxTrackers
    · rw [if_pos free]
      cases made : trackerNew curl param.val with
      | error fault => simp [Except.map]
      | ok result => cases result <;> simp [Except.map, tracker, room.mp free]
    · have full : ¬ known < maxTrackers := fun less => free (room.mpr less)
      rw [if_neg free]
      simp [full]
  · constructor
    · intro refused
      rw [parseParam, if_neg tracker] at refused
      split_ifs at refused
      · cases valued : param.val <;> simp [valued] at refused
      · cases valued : param.val with
        | none => simp [valued] at refused
        | some val =>
            cases behind : behindLast 58 val with
            | none => simp [valued, behind] at refused
            | some text =>
                simp only [valued, behind] at refused
                split_ifs at refused
                cases refused
      · cases refused
    · rintro ⟨same, _⟩
      exact absurd same tracker

/-- Readable parameters are read one after the other. -/
theorem parseParams_readable {curl : Libcurl} {t : MagnetTorrent} {known : Nat}
    {reading : List YuarelParam} (readable : AllReadable curl known reading)
    (counted : t.trackers.length = min maxTrackers known)
    : ∃ final, t.parseParams curl reading = .ok (some final)
      ∧ final.infoHashHex = scannedHash (hashTexts reading.reverse) t.infoHashHex := by
  induction reading generalizing t known with
  | nil => exact ⟨t, rfl, rfl⟩
  | cons param rest ih =>
      obtain ⟨first, others⟩ := allReadable_cons.mp readable
      obtain ⟨next, parsed, hash, countedNext⟩ := parseParam_readable first counted
      obtain ⟨final, later, hashFinal⟩ := ih others countedNext
      refine ⟨final, ?_, ?_⟩
      · rw [parseParams, bind_of_ok parsed]
        exact later
      · rw [hashFinal, hash, ← scannedHash_append, ← hashTexts_append, List.reverse_cons]

/-- The parameters of a link that is accepted are readable. -/
theorem allReadable_of_parseParams {curl : Libcurl} {t final : MagnetTorrent} {known : Nat}
    {reading : List YuarelParam} (parsed : t.parseParams curl reading = .ok (some final))
    (counted : t.trackers.length = min maxTrackers known)
    : AllReadable curl known reading := by
  induction reading generalizing t known with
  | nil => simp [AllReadable]
  | cons param rest ih =>
      obtain ⟨result, first, later⟩ := bind_eq_ok.mp parsed
      cases result with
      | none => cases later
      | some next =>
          have readable := readable_of_parseParam first counted
          obtain ⟨other, same, _, countedNext⟩ := parseParam_readable readable counted
          cases first.symm.trans same
          exact allReadable_cons.mpr ⟨readable, ih later countedNext⟩

/-- The parser gives up exactly where it reaches a refused tracker in time. -/
theorem parseParams_refuses_iff {curl : Libcurl} {t : MagnetTorrent} {known : Nat}
    {reading : List YuarelParam} (counted : t.trackers.length = min maxTrackers known)
    : t.parseParams curl reading = .ok none ↔ StopsAtTracker curl known reading := by
  induction reading generalizing t known with
  | nil => simp [parseParams, StopsAtTracker]
  | cons param rest ih =>
      rw [stopsAtTracker_cons, ← parseParam_refuses_iff counted, parseParams, bind_eq_ok]
      constructor
      · rintro ⟨result, parsed, later⟩
        cases result with
        | none => exact .inl parsed
        | some next =>
            have readable := readable_of_parseParam parsed counted
            obtain ⟨other, same, _, countedNext⟩ := parseParam_readable readable counted
            cases parsed.symm.trans same
            exact .inr ⟨readable, (ih countedNext).mp later⟩
      · rintro (refused | ⟨readable, stops⟩)
        · exact ⟨none, refused, rfl⟩
        · obtain ⟨next, parsed, _, countedNext⟩ := parseParam_readable readable counted
          exact ⟨some next, parsed, (ih countedNext).mpr stops⟩

end MagnetTorrent

-----------------------------------------------------------------------------------------
-- Links
-----------------------------------------------------------------------------------------

/-- A link whose parameters are readable is accepted with what its `xt` parameters scan. -/
theorem torrentNew_readable {curl : Libcurl} {magnetUri : CString} {params : List YuarelParam}
    (infoHashHex : Fin 20 → UInt8) (link : linkParams magnetUri = some params)
    (readable : AllReadable curl 0 params.reverse)
    : ∃ t, torrentNew curl magnetUri infoHashHex = .ok (some t)
      ∧ t.infoHashHex = MagnetTorrent.scannedHash (hashTexts params) infoHashHex := by
  obtain ⟨t, parsed, hash⟩ :=
    @MagnetTorrent.parseParams_readable curl (.blank infoHashHex) 0 _ readable rfl
  rw [List.reverse_reverse] at hash
  refine ⟨t, ?_, hash⟩
  rw [torrentNew, link]
  exact parsed

/-- Texts decide the info hash when what they scan is denoted by one of them. -/
theorem hashDecided_iff {texts : List CString} {infoHashHex : Fin 20 → UInt8}
    : HashDecided texts
      ↔ ∃ text ∈ texts, DenotesHash text (MagnetTorrent.scannedHash texts infoHashHex) := by
  constructor
  · rintro ⟨text, member, digest, denotes, decided⟩
    have scanned : MagnetTorrent.scannedHash texts infoHashHex = digest := by
      funext count
      rw [MagnetTorrent.scannedHash, decided count, Option.getD_some]
    rw [← scanned] at denotes
    exact ⟨text, member, denotes⟩
  · rintro ⟨text, member, denotes⟩
    refine ⟨text, member, _, denotes, fun count => ?_⟩
    obtain ⟨byte, found⟩ := denotes.findSome member count
    rw [MagnetTorrent.scannedHash, found, Option.getD_some]

/-- A link whose info hash has no digits. -/
def letterLink : CString :=
  ascii "magnet:?xt=urn:btih:zzzzzzzzzzzzzzzzzzzzzzzzzzzzzzzzzzzzzzzz&dn=a"

end UvgTorrent
