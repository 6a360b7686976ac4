import Oscam.Http.Params
import Oscam.Simples

/-!
# Digest authentication

`check_auth` takes a header of digest authentication apart: it is cut at its
commas, and each piece is taken for the field whose name it begins with.
-/

namespace Oscam.Http

open Monitor (ascii splitAt)

/-! ## Fields -/

/-- The fields that `check_auth` reads. -/
inductive AuthName where
  | nonce
  | nc
  | cnonce
  | response
  | uri
  | username
  deriving DecidableEq, Repr

def AuthName.text : AuthName → List UInt8
  | nonce => ascii "nonce"
  | nc => ascii "nc"
  | cnonce => ascii "cnonce"
  | response => ascii "response"
  | uri => ascii "uri"
  | username => ascii "username"

/-- The names in the order in which a piece is compared with them. -/
def authNames : List AuthName :=
  [.nonce, .nc, .cnonce, .response, .uri, .username]

def isSpace (c : UInt8) : Bool := c == 32

def isOpening (c : UInt8) : Bool := c == 32 || c == 34

def isClosing (c : UInt8) : Bool := c == 32 || c == 34 || c == 13 || c == 10

/-- `parse_auth_value`. -/
def parseAuthValue (value : List UInt8) : List UInt8 :=
  match splitAt 61 value with
  | none => value
  | some (_, behind) => (behind.dropWhile isOpening).rdropWhile isClosing

/-- The field that a piece is taken for. -/
def claimed (piece : List UInt8) : Option AuthName :=
  authNames.find? fun name => name.text.isPrefixOf (piece.dropWhile isSpace)

/-- One round of the loop of `check_auth`. -/
def readPiece (found : AuthName → List UInt8) (piece : List UInt8) :
    AuthName → List UInt8 :=
  match claimed piece with
  | none => found
  | some name =>
      Function.update found name (parseAuthValue (piece.dropWhile isSpace))

/-- The fields of a header, without its first 22 bytes. -/
def readFields (authstring : List UInt8) : AuthName → List UInt8 :=
  (strtok 44 (authstring.drop 22)).foldl readPiece fun _ => []

/-! ## The digest -/

/-- `AUTHREALM`. -/
def authRealm : List UInt8 := ascii "Forbidden"

/-- `cfg.http_user` and `cfg.http_pwd`. -/
structure HttpUser where
  httpUser : List UInt8
  httpPwd : List UInt8

/-- `char_to_hex`. -/
def charToHex (bytes : List UInt8) : List UInt8 :=
  bytes.flatMap fun c : UInt8 => [toHex (c >>> 4), toHex (c &&& 15)]

/-- The digits of a hash. -/
def md5Hex (md5 : List UInt8 → Vector UInt8 16) (txt : List UInt8) :
    List UInt8 :=
  charToHex (md5 txt).toList

/-- The text that is hashed for `A1`. -/
def textA1 (username pwd : List UInt8) : List UInt8 :=
  username ++ 58 :: authRealm ++ 58 :: pwd

/-- The text that is hashed for `A3`. -/
def textA3 (md5 : List UInt8 → Vector UInt8 16) (pwd method : List UInt8)
    (found : AuthName → List UInt8) : List UInt8 :=
  md5Hex md5 (textA1 (found .username) pwd) ++ 58 :: found .nonce ++
    58 :: found .nc ++ 58 :: found .cnonce ++ ascii ":auth:" ++
    md5Hex md5 (method ++ 58 :: found .uri)

/-- What is behind the last slash, with it; the whole text without a slash. -/
def fromLastSlash (uri : List UInt8) : List UInt8 :=
  if 47 ∈ uri then 47 :: uri.rtakeWhile (· != 47) else uri

def uriOk (path uri : List UInt8) : Bool :=
  path.isPrefixOf uri || path.isPrefixOf (fromLastSlash uri)

/-- `check_auth`. -/
def checkAuth (md5 : List UInt8 → Vector UInt8 16) (cfg : HttpUser)
    (authstring method path expectednonce : List UInt8) : Int :=
  let found := readFields authstring
  if uriOk path (found .uri) = true ∧ found .username = cfg.httpUser then
    if md5Hex md5 (textA3 md5 cfg.httpPwd method found) = found .response then
      if expectednonce = found .nonce then 1 else 2
    else 0
  else 0

/-! ## Headers -/

/-- A text between quotes, where a quote follows a backslash. -/
def quotedText : List UInt8 → Bool
  | [] => true
  | 92 :: c :: txt => c != 0 && c != 10 && c != 13 && quotedText txt
  | c :: txt =>
      c != 34 && c != 92 && c != 0 && c != 10 && c != 13 && quotedText txt

/-- A text without quotes is not empty and has no separators. -/
def isToken (txt : List UInt8) : Bool :=
  txt ≠ [] ∧ txt.all fun c =>
    32 < c && c < 127 && !(ascii "()<>@,;:\\\"/[]?=\x7b\x7d").contains c

def isLws (c : UInt8) : Bool := c == 32 || c == 9

/-- One field of a header, with the blanks around it. -/
structure AuthField where
  front : List UInt8
  name : List UInt8
  value : List UInt8
  quoted : Bool
  back : List UInt8

/-- The text of a field. -/
def AuthField.text (field : AuthField) : List UInt8 :=
  field.front ++ field.name ++ 61 ::
    (if field.quoted then 34 :: field.value ++ [34] else field.value) ++
    field.back

/-- What a field has to be. -/
def AuthField.valid (field : AuthField) : Bool :=
  field.front.all isLws && field.back.all isLws && isToken field.name &&
    (if field.quoted then quotedText field.value else isToken field.value)

/-- A header of digest authentication.  Each of the fields that are read is
there, no field is there twice, and names are compared without their case. -/
structure DigestHeader where
  lead : List UInt8
  fields : List AuthField
  scheme : ∃ before behind, lead = ascii "Authorization:" ++ before ++
    ascii "Digest" ++ behind ∧ before.all isLws ∧ behind.all isLws ∧
    behind ≠ []
  valid : ∀ field ∈ fields, field.valid = true
  once : (fields.map fun field => strtolower field.name).Nodup
  there : ∀ name : AuthName,
    ∃ field ∈ fields, strtolower field.name = name.text

/-- The header as it is received. -/
def DigestHeader.text (header : DigestHeader) : List UInt8 :=
  header.lead ++ [44].intercalate (header.fields.map AuthField.text)

/-- The value of a field. -/
def DigestHeader.value (header : DigestHeader) (name : AuthName) :
    List UInt8 :=
  ((header.fields.find? fun field => strtolower field.name = name.text).map
    AuthField.value).getD []

/-- The response to a request for the values of a header, with `qop=auth`. -/
def requestDigest (md5 : List UInt8 → Vector UInt8 16)
    (pwd method : List UInt8) (value : AuthName → List UInt8) : List UInt8 :=
  let ha1 := md5Hex md5 ([58].intercalate [value .username, authRealm, pwd])
  let ha2 := md5Hex md5 ([58].intercalate [method, value .uri])
  md5Hex md5 ([58].intercalate
    [ha1, value .nonce, value .nc, value .cnonce, ascii "auth", ha2])

/-! ## What is expected -/

/-- No two of the texts have the same hash. -/
def NoCollision (md5 : List UInt8 → Vector UInt8 16)
    (txts : List (List UInt8)) : Prop :=
  ∀ a ∈ txts, ∀ b ∈ txts, md5 a = md5 b → a = b

/-- A request for a path with any query, by the configured user. -/
structure ForPath (cfg : HttpUser) (path : List UInt8)
    (header : DigestHeader) : Prop where
  user : header.value .username = cfg.httpUser
  uri : header.value .uri = path ∨
    ∃ query, header.value .uri = path ++ 63 :: query

/-- A header with the right response is accepted, with another nonce as a stale
one, and a response for another password never is. -/
def AuthRight (md5 : List UInt8 → Vector UInt8 16) (cfg : HttpUser)
    (header : DigestHeader) (method path expectednonce : List UInt8) : Prop :=
  let result := checkAuth md5 cfg header.text method path expectednonce
  (ForPath cfg path header →
    header.value .response =
      requestDigest md5 cfg.httpPwd method header.value →
    result = if header.value .nonce = expectednonce then 1 else 2) ∧
  ∀ pwd, pwd ≠ cfg.httpPwd →
    NoCollision md5
      [textA1 (header.value .username) pwd,
        textA1 (header.value .username) cfg.httpPwd,
        textA3 md5 pwd method header.value,
        textA3 md5 cfg.httpPwd method header.value] →
    header.value .response = requestDigest md5 pwd method header.value →
    result ≤ 0

/-- Behind the first 22 bytes the last piece between commas that begins with
the name has the value, with blanks and quotes around it that are not its
own. -/
def DigestHeader.Comes (header : DigestHeader) (name : AuthName) : Prop :=
  ∃ front piece back,
    strtok 44 (header.text.drop 22) = front ++ piece :: back ∧
    (∃ spaces gap before behind,
      piece = spaces ++ name.text ++ gap ++
        61 :: (before ++ header.value name ++ behind) ∧
      spaces.all isSpace ∧ 61 ∉ gap ∧ before.all isOpening ∧
      behind.all isClosing) ∧
    (header.value name).head?.all (fun c => !isOpening c) ∧
    (header.value name).getLast?.all (fun c => !isClosing c) ∧
    ∀ other ∈ back, claimed other ≠ some name

/-! ## Reading -/

variable {header : DigestHeader} {cfg : HttpUser} {name : AuthName}
  {piece value before behind gap spaces : List UInt8}
  {md5 : List UInt8 → Vector UInt8 16}
  {method path expectednonce pwd : List UInt8}

/-- A piece of blanks, a name, an equals sign and something more. -/
theorem claimed_name (rest : List UInt8) :
    (name.text ++ rest).dropWhile isSpace = name.text ++ rest ∧
      authNames.find? (fun other =>
        other.text.isPrefixOf (name.text ++ rest)) = some name := by
  cases name <;> exact ⟨rfl, rfl⟩

theorem dropWhile_spaces (blank : spaces.all isSpace) (rest : List UInt8) :
    (spaces ++ (name.text ++ rest)).dropWhile isSpace = name.text ++ rest := by
  rw [List.dropWhile_append_of_pos (List.all_eq_true.mp blank)]
  exact (claimed_name rest).1

theorem claimed_piece (blank : spaces.all isSpace) (rest : List UInt8) :
    claimed (spaces ++ (name.text ++ rest)) = some name := by
  unfold claimed
  rw [dropWhile_spaces blank]
  exact (claimed_name rest).2

theorem rdropWhile_append {p : UInt8 → Bool} (closing : behind.all p)
    (txt : List UInt8) : (txt ++ behind).rdropWhile p = txt.rdropWhile p := by
  have back : ∀ c ∈ behind.reverse, p c = true := fun c member =>
    List.all_eq_true.mp closing c (List.mem_reverse.mp member)
  unfold List.rdropWhile
  rw [List.reverse_append, List.dropWhile_append_of_pos back]

/-- Blanks and quotes are taken away that are not part of the value. -/
theorem strip_value (opening : before.all isOpening)
    (closing : behind.all isClosing)
    (first : value.head?.all fun c => !isOpening c)
    (last : value.getLast?.all fun c => !isClosing c) :
    ((before ++ value ++ behind).dropWhile isOpening).rdropWhile isClosing =
      value := by
  rw [List.append_assoc, List.dropWhile_append_of_pos
    (List.all_eq_true.mp opening)]
  cases value with
  | nil =>
      rw [List.nil_append, List.rdropWhile_eq_nil_iff]
      intro c member
      exact List.all_eq_true.mp closing c
        ((List.dropWhile_sublist isOpening).subset member)
  | cons c txt =>
      have kept : ¬ isOpening c = true := by simpa using first
      rw [List.cons_append, List.dropWhile_cons_of_neg kept,
        ← List.cons_append, rdropWhile_append closing,
        List.rdropWhile_eq_self_iff]
      intro some
      rw [List.getLast?_eq_some_getLast some] at last
      simpa using last

/-- What is read from a piece with a value. -/
theorem parseAuthValue_piece (plain : 61 ∉ gap)
    (opening : before.all isOpening) (closing : behind.all isClosing)
    (first : value.head?.all fun c => !isOpening c)
    (last : value.getLast?.all fun c => !isClosing c) :
    parseAuthValue (name.text ++ gap ++ 61 :: (before ++ value ++ behind)) =
      value := by
  have front : 61 ∉ name.text ++ gap := by
    intro member
    rcases List.mem_append.mp member with inName | inGap
    · revert inName
      cases name <;> decide
    · exact plain inGap
  unfold parseAuthValue
  rw [splitAt_append front]
  exact strip_value opening closing first last

theorem readPiece_other (found : AuthName → List UInt8)
    (other : claimed piece ≠ some name) :
    readPiece found piece name = found name := by
  unfold readPiece
  cases taken : claimed piece with
  | none => rfl
  | some found =>
      refine Function.update_of_ne ?_ _ _
      rintro rfl
      exact other taken

theorem foldl_readPiece_others {back : List (List UInt8)}
    (found : AuthName → List UInt8)
    (others : ∀ piece ∈ back, claimed piece ≠ some name) :
    back.foldl readPiece found name = found name := by
  induction back generalizing found with
  | nil => rfl
  | cons piece back induction =>
      rw [List.foldl_cons, induction _ fun other member =>
        others other (List.mem_cons_of_mem piece member)]
      exact readPiece_other found (others piece List.mem_cons_self)

/-- A value that comes out of the header is read. -/
theorem DigestHeader.Comes.read (comes : header.Comes name) :
    readFields header.text name = header.value name := by
  obtain ⟨front, piece, back, cut, ⟨spaces, gap, before, behind, rfl, blank,
    plain, opening, closing⟩, first, last, others⟩ := comes
  unfold readFields
  rw [cut, List.foldl_append, List.foldl_cons,
    foldl_readPiece_others _ others, List.append_assoc, List.append_assoc]
  unfold readPiece
  rw [claimed_piece blank, dropWhile_spaces blank]
  simp only [Function.update_self]
  rw [← List.append_assoc]
  exact parseAuthValue_piece plain opening closing first last

/-! ## Hashes -/

theorem charToHex_inj {first second : List UInt8}
    (same : charToHex first = charToHex second) : first = second := by
  induction first generalizing second with
  | nil =>
      cases second with
      | nil => rfl
      | cons c rest => cases same
  | cons c first induction =>
      cases second with
      | nil => cases same
      | cons d second =>
          injection same with high rest
          injection rest with low rest
          have byte : c = d := by
            rw [← hexByte_toHex c, ← hexByte_toHex d, high, low]
          rw [byte, induction rest]

theorem length_charToHex (bytes : List UInt8) :
    (charToHex bytes).length = 2 * bytes.length := by
  induction bytes with
  | nil => rfl
  | cons c bytes induction =>
      show (charToHex bytes).length + 1 + 1 = _
      rw [induction, List.length_cons]
      omega

theorem length_md5Hex (md5 : List UInt8 → Vector UInt8 16)
    (txt : List UInt8) : (md5Hex md5 txt).length = 32 := by
  unfold md5Hex
  rw [length_charToHex, Vector.length_toList]

theorem md5_of_md5Hex {first second : List UInt8}
    (same : md5Hex md5 first = md5Hex md5 second) :
    md5 first = md5 second :=
  Vector.toList_inj.mp (charToHex_inj same)

/-- What is hashed for a response is what the standard says. -/
theorem requestDigest_eq (md5 : List UInt8 → Vector UInt8 16)
    (pwd method : List UInt8) (value : AuthName → List UInt8) :
    requestDigest md5 pwd method value =
      md5Hex md5 (textA3 md5 pwd method value) := by
  have auth : ascii ":auth:" = 58 :: (ascii "auth" ++ [58]) := rfl
  unfold requestDigest textA3 textA1
  simp only [List.intercalate_cons_cons, List.intercalate_singleton, auth,
    List.append_assoc, List.cons_append, List.nil_append]

/-- Without collisions the responses for two passwords are different. -/
theorem pwd_of_textA3 {value : AuthName → List UInt8} {other : List UInt8}
    (safe : NoCollision md5
      [textA1 (value .username) pwd, textA1 (value .username) other,
        textA3 md5 pwd method value, textA3 md5 other method value])
    (same : md5Hex md5 (textA3 md5 pwd method value) =
      md5Hex md5 (textA3 md5 other method value)) : pwd = other := by
  have texts : textA3 md5 pwd method value = textA3 md5 other method value :=
    safe _ (by simp) _ (by simp) (md5_of_md5Hex same)
  unfold textA3 at texts
  simp only [List.append_assoc] at texts
  have hashes := List.append_inj_left texts
    ((length_md5Hex _ _).trans (length_md5Hex _ _).symm)
  have first : textA1 (value .username) pwd =
      textA1 (value .username) other :=
    safe _ (by simp) _ (by simp) (md5_of_md5Hex hashes)
  unfold textA1 at first
  simpa using first

/-! ## Requests -/

theorem uriOk_of_path {uri : List UInt8}
    (there : uri = path ∨ ∃ query, uri = path ++ 63 :: query) :
    uriOk path uri = true := by
  have front : path <+: uri := by
    rcases there with rfl | ⟨query, rfl⟩
    · exact List.prefix_rfl
    · exact List.prefix_append path _
  unfold uriOk
  rw [List.isPrefixOf_iff_prefix.mpr front, Bool.true_or]

/-- When all fields come out of a header, it is judged as it should be. -/
theorem checkAuth_right (comes : ∀ name, header.Comes name)
    (md5 : List UInt8 → Vector UInt8 16) (cfg : HttpUser)
    (method path expectednonce : List UInt8) :
    AuthRight md5 cfg header method path expectednonce := by
  have found : readFields header.text = header.value :=
    funext fun name => (comes name).read
  constructor
  · intro request response
    unfold checkAuth
    rw [found]
    dsimp only
    rw [if_pos ⟨uriOk_of_path request.uri, request.user⟩, response,
      requestDigest_eq, if_pos rfl]
    by_cases fresh : header.value .nonce = expectednonce
    · rw [if_pos fresh.symm, if_pos fresh]
    · rw [if_neg (Ne.symm fresh), if_neg fresh]
  · intro pwd other safe response
    unfold checkAuth
    rw [found]
    dsimp only
    split
    · split
      · next same =>
          rw [response, requestDigest_eq] at same
          exact absurd (pwd_of_textA3 safe same.symm) other
      · exact le_refl _
    · exact le_refl _

/-! ### Two requests -/

/-- MD5 of the texts that are hashed in the examples. -/
def exampleMd5 (txt : List UInt8) : Vector UInt8 16 :=
  if txt = ascii "root:Forbidden:pw" then
    #v[76, 105, 50, 202, 5, 169, 116, 43,
      217, 171, 27, 116, 12, 174, 93, 72]
  else if txt = ascii "GET:/config.html?a=1" then
    #v[142, 153, 107, 248, 93, 147, 60, 69,
      85, 101, 22, 234, 235, 120, 125, 82]
  else if txt = (ascii "4c6932ca05a9742bd9ab1b740cae5d48:0123456789abcdef0123456" ++
      ascii "789abcdef:00000001:c:auth:8e996bf85d933c45556516eaeb787d" ++
      ascii "52") then
    #v[214, 123, 46, 40, 135, 60, 129, 167,
      2, 111, 62, 232, 214, 96, 55, 92]
  else if txt = ascii "GET:/config.html?a=1,2" then
    #v[57, 128, 82, 207, 139, 67, 12, 73,
      126, 96, 75, 144, 122, 242, 213, 106]
  else if txt = (ascii "4c6932ca05a9742bd9ab1b740cae5d48:0123456789abcdef0123456" ++
      ascii "789abcdef:00000001:c:auth:398052cf8b430c497e604b907af2d5" ++
      ascii "6a") then
    #v[121, 203, 19, 208, 20, 108, 187, 213,
      99, 0, 39, 127, 107, 224, 220, 110]
  else #v[0, 0, 0, 0, 0, 0, 0, 0, 0, 0, 0, 0, 0, 0, 0, 0]

/-- A field with a blank before it. -/
def exampleField (name value : String) (quoted : Bool) : AuthField :=
  { front := [32], name := ascii name, value := ascii value
    quoted := quoted, back := [] }

def exampleFields (uri response : String) : List AuthField :=
  [exampleField "username" "root" true,
    exampleField "realm" "Forbidden" true,
    exampleField "nonce" "0123456789abcdef0123456789abcdef" true,
    exampleField "uri" uri true, exampleField "qop" "auth" false,
    exampleField "nc" "00000001" false, exampleField "cnonce" "c" true,
    exampleField "response" response true]

theorem scheme_example : ∃ before behind, ascii "Authorization: Digest" ++ [32] =
    ascii "Authorization:" ++ before ++ ascii "Digest" ++ behind ∧
    before.all isLws ∧ behind.all isLws ∧ behind ≠ [] :=
  ⟨[32], [32], by decide, by decide, by decide, by decide⟩

/-- A request for a page with a parameter. -/
def plainRequest : DigestHeader where
  lead := ascii "Authorization: Digest" ++ [32]
  fields := exampleFields "/config.html?a=1" "d67b2e28873c81a7026f3ee8d660375c"
  scheme := scheme_example
  valid := by decide +kernel
  once := by decide +kernel
  there name := by cases name <;> decide +kernel

/-- A request for a page with a comma in the parameter. -/
def commaRequest : DigestHeader where
  lead := ascii "Authorization: Digest" ++ [32]
  fields := exampleFields "/config.html?a=1,2" "79cb13d0146cbbd56300277f6be0dc6e"
  scheme := scheme_example
  valid := by decide +kernel
  once := by decide +kernel
  there name := by cases name <;> decide +kernel

/-- The field is the `i`-th piece, with one blank before it, and its value has
the quotes around it, if there are any. -/
abbrev DigestHeader.ComesAt (header : DigestHeader) (name : AuthName) (i : Nat)
    (quotes : List UInt8) : Prop :=
  let pieces := strtok 44 (header.text.drop 22)
  let value := header.value name
  pieces[i]? = some ([32] ++ name.text ++ 61 :: (quotes ++ value ++ quotes)) ∧
    quotes.all (· == 34) ∧ value.head?.all (fun c => !isOpening c) ∧
    value.getLast?.all (fun c => !isClosing c) ∧
    (pieces.drop (i + 1)).all fun other => claimed other != some name

theorem DigestHeader.ComesAt.comes {i : Nat} {quotes : List UInt8}
    (found : header.ComesAt name i quotes) : header.Comes name := by
  obtain ⟨here, marks, first, last, others⟩ := found
  obtain ⟨inside, piece⟩ := List.getElem?_eq_some_iff.mp here
  have split := List.take_append_drop i (strtok 44 (header.text.drop 22))
  rw [List.drop_eq_getElem_cons inside] at split
  have mark : ∀ c ∈ quotes, c = 34 := fun c member =>
    eq_of_beq (List.all_eq_true.mp marks c member)
  refine ⟨_, _, _, split.symm, ⟨[32], [], quotes, quotes, ?_, rfl,
    List.not_mem_nil, ?_, ?_⟩, first, last, ?_⟩
  · rw [piece, List.append_nil]
  · refine List.all_eq_true.mpr fun c member => ?_
    rw [mark c member]
    rfl
  · refine List.all_eq_true.mpr fun c member => ?_
    rw [mark c member]
    rfl
  · intro other member
    exact bne_iff_ne.mp (List.all_eq_true.mp others other member)

theorem comes_plainRequest (name : AuthName) : plainRequest.Comes name := by
  cases name with
  | nonce =>
      have found : plainRequest.ComesAt .nonce 2 [34] := by decide +kernel
      exact found.comes
  | nc =>
      have found : plainRequest.ComesAt .nc 5 [] := by decide +kernel
      exact found.comes
  | cnonce =>
      have found : plainRequest.ComesAt .cnonce 6 [34] := by decide +kernel
      exact found.comes
  | response =>
      have found : plainRequest.ComesAt .response 7 [34] := by decide +kernel
      exact found.comes
  | uri =>
      have found : plainRequest.ComesAt .uri 3 [34] := by decide +kernel
      exact found.comes
  | username =>
      have found : plainRequest.ComesAt .username 0 [34] := by decide +kernel
      exact found.comes

def exampleUser : HttpUser := { httpUser := ascii "root", httpPwd := ascii "pw" }

/-- The page with the parameter is delivered. -/
theorem checkAuth_right_plain :
    checkAuth exampleMd5 exampleUser plainRequest.text (ascii "GET")
      (ascii "/config.html") (ascii "0123456789abcdef0123456789abcdef") = 1 := by
  have right := (checkAuth_right comes_plainRequest exampleMd5 exampleUser
    (ascii "GET") (ascii "/config.html")
    (ascii "0123456789abcdef0123456789abcdef")).1
  refine right ⟨by decide +kernel, .inr ⟨ascii "a=1", by decide +kernel⟩⟩
    (by decide +kernel)

/-- The one with the comma is not. -/
theorem not_checkAuth_comma :
    ¬ ∀ (md5 : List UInt8 → Vector UInt8 16) (cfg : HttpUser)
      (header : DigestHeader) (method path expectednonce : List UInt8),
      AuthRight md5 cfg header method path expectednonce := by
  intro all
  have right := (all exampleMd5 exampleUser commaRequest (ascii "GET")
    (ascii "/config.html") (ascii "0123456789abcdef0123456789abcdef")).1
    ⟨by decide +kernel, .inr ⟨ascii "a=1,2", by decide +kernel⟩⟩
    (by decide +kernel)
  have refused : checkAuth exampleMd5 exampleUser commaRequest.text
      (ascii "GET") (ascii "/config.html")
      (ascii "0123456789abcdef0123456789abcdef") = 0 := by decide +kernel
  rw [refused, if_pos (by decide +kernel)] at right
  cases right

end Oscam.Http
