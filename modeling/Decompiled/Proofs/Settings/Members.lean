import Decompiled.Proofs.Json.Passing
import Decompiled.Proofs.Settings.Values

/-!
# What settings are read from

Of an object the reader takes the members that name a setting and passes over all
others, whatever they hold. So what it answers hangs on nothing but the values given to
each setting: there must be at most one, and it must be true or false.

* `Settings.readMember_iff`, `Settings.readMembers_first`: members are read as far as
  none is refused.
* `Settings.read_document_iff`: reading an object is taking its members in turn.
* `Settings.reads_by_values`: what the reader answers for an object.
-/

namespace Decompiled.Settings

open Json Grammar

variable {given given' result : Given} {field : Field} {members : List Member} {said : String}
  {text rest after : List UInt8}

/-! ## Reading values -/

/-- What is not true or false is refused, whatever it is. -/
theorem readMismatch_ne_ok {α : Type} (expected : String) (text : List UInt8) (result : α) :
    readMismatch expected text ≠ .ok result := by
  simp only [readMismatch, mismatch]
  repeat' split
  all_goals simp [bind_eq_ok]

theorem readBool_blanks (gap : List Blank) (text : List UInt8) :
    readBool (utf8 (blanks gap) ++ text) = readBool text := by
  unfold readBool
  rw [skipSpace_blanks]

theorem readBool_boolean (truth : Bool) (rest : List UInt8) :
    readBool (utf8 (Value.boolean truth).chars ++ rest) = .ok (truth, rest) := by
  cases truth with
  | true => exact congrArg (· >>= fun rest => .ok (true, rest)) (readWord_word "rue" rest)
  | false => exact congrArg (· >>= fun rest => .ok (false, rest)) (readWord_word "alse" rest)

theorem readBool_other {value : Value} (hother : ¬ ∃ truth, value = .boolean truth)
    (rest : List UInt8) (result : Bool × List UInt8) :
    readBool (utf8 value.chars ++ rest) ≠ .ok result := by
  obtain ⟨b, more, hvalue, hspace, -, honly⟩ := utf8_value value
  intro h
  unfold readBool at h
  rw [hvalue, List.cons_append, skipSpace_cons hspace] at h
  simp only at h
  rw [if_neg fun h => hother (honly (.inl h)), if_neg fun h => hother (honly (.inr h))] at h
  exact readMismatch_ne_ok _ _ _ h

/-! ## Reading members -/

theorem skipValue_element (before after : List Blank) (value : Value) (h : Stops rest) :
    skipValue (utf8 (Element.mk before value after).chars ++ rest) =
      .ok (utf8 (blanks after) ++ rest) := by
  unfold skipValue
  rw [Element.chars, utf8_append, utf8_append, List.append_assoc, List.append_assoc,
    skipValueIn_blanks, skipValueIn_value value [] _ (stops_blanks after h), skipRestOf]

theorem readMember_other (hfield : Field.ofKey? (bytesOf said) = none)
    (behind before after : List Blank) (value : Value) (h : Stops rest) :
    readMember given (bytesOf said) (utf8 (blanks behind) ++
        byte ':' :: (utf8 (Element.mk before value after).chars ++ rest)) =
      .ok (given, utf8 (blanks after) ++ rest) := by
  unfold readMember
  rw [hfield]
  simp only
  rw [readColon_blanks]
  show (skipValue _ >>= fun rest => .ok (given, rest)) = _
  rw [skipValue_element before after value h]
  rfl

theorem readMember_again (hfield : Field.ofKey? (bytesOf said) = some field)
    (hgiven : given.get? field ≠ none) (outcome : Given × List UInt8) :
    readMember given (bytesOf said) text ≠ .ok outcome := by
  intro h
  unfold readMember at h
  rw [hfield] at h
  simp only at h
  rw [if_pos (Option.isSome_iff_ne_none.mpr hgiven)] at h
  cases h

theorem readMember_setting (hfield : Field.ofKey? (bytesOf said) = some field)
    (hnone : given.get? field = none) (behind before after : List Blank) (value : Value) :
    readMember given (bytesOf said) (utf8 (blanks behind) ++
        byte ':' :: (utf8 (Element.mk before value after).chars ++ rest)) =
      (readBool (utf8 value.chars ++ (utf8 (blanks after) ++ rest)) >>=
        fun read => .ok (given.set field read.1, read.2)) := by
  unfold readMember
  rw [hfield]
  simp only
  rw [hnone, readColon_blanks, Element.chars, utf8_append, utf8_append, List.append_assoc,
    List.append_assoc]
  show (readBool _ >>= fun read => .ok (given.set field read.1, read.2)) = _
  rw [readBool_blanks]

/-- A member is read up to behind its value exactly if it is not refused. -/
theorem readMember_iff (before : List Blank) {behind inner outer : List Blank} {key : List Piece}
    {value : Value} (hsaid : said? key = some said) (h : Stops rest) :
    readMember given (bytesOf said) (utf8 (blanks behind) ++
        byte ':' :: (utf8 (Element.mk inner value outer).chars ++ rest)) = .ok (given', text) ↔
      Takes given (.mk before key behind (.mk inner value outer)) given' ∧
        text = utf8 (blanks outer) ++ rest := by
  have hnames : ∀ field : Field, (Member.mk before key behind (.mk inner value outer)).key? =
      some field.name ↔ Field.ofKey? (bytesOf said) = some field := by
    intro field
    show said? key = some field.name ↔ _
    rw [hsaid, Option.some.injEq, ofKey?_bytesOf]
  rcases hfield : Field.ofKey? (bytesOf said) with _ | field
  · have hother : ∀ field : Field, (Member.mk before key behind (.mk inner value outer)).key? ≠
        some field.name := by
      intro field habs
      cases hfield.symm.trans ((hnames field).mp habs)
    rw [readMember_other hfield behind inner outer value h, takes_iff_of_unnamed hother]
    simp [eq_comm]
  · -- That the setting was given before is looked at ahead of the colon.
    rw [takes_iff_of_named ((hnames field).mpr hfield)]
    rcases hgiven : given.get? field with _ | earlier
    · rw [readMember_setting hfield hgiven]
      by_cases hboolean : ∃ truth, value = .boolean truth
      · obtain ⟨truth, rfl⟩ := hboolean
        rw [readBool_boolean]
        show Except.ok (given.set field truth, _) = .ok (given', text) ↔ _
        simp [Member.value, Element.value, eq_comm]
      · constructor
        · intro habs
          obtain ⟨_, hread, -⟩ := bind_eq_ok.mp habs
          exact absurd hread (readBool_other hboolean _ _)
        · rintro ⟨⟨-, truth, hvalue, -⟩, -⟩
          exact absurd ⟨truth, hvalue⟩ hboolean
    · have hagain : given.get? field ≠ none := by simp [hgiven]
      simp [readMember_again hfield hagain]

/-! ## Reading objects -/

/-- The key of a member is read, up to before the colon. -/
theorem readKey_first (gap before behind : List Blank) {key : List Piece}
    (hsaid : said? key = some said) (rest : List UInt8) :
    readKey true (utf8 (blanks gap) ++ (utf8 (keyPart before key behind) ++ byte ':' :: rest)) =
      .ok (some (bytesOf said), utf8 (blanks behind) ++ byte ':' :: rest) := by
  unfold readKey
  rw [skipSpace_blanks, skipSpace_keyPart]
  show (readString _ >>= fun read => .ok (some read.1, read.2)) = _
  rw [readString_pieces hsaid]
  rfl

theorem readKey_further (gap before behind : List Blank) {key : List Piece}
    (hsaid : said? key = some said) (rest : List UInt8) :
    readKey false (utf8 (blanks gap) ++ byte ',' ::
        (utf8 (keyPart before key behind) ++ byte ':' :: rest)) =
      .ok (some (bytesOf said), utf8 (blanks behind) ++ byte ':' :: rest) := by
  have hcomma : ¬ byte ',' = byte '\x7d' := by decide
  unfold readKey
  rw [skipSpace_blanks, skipSpace_cons (by decide)]
  simp only [hcomma, if_false, Bool.false_eq_true, if_true, skipSpace_keyPart]
  rw [readString_pieces hsaid]
  rfl

theorem readKey_end (first : Bool) (gap : List Blank) (rest : List UInt8) :
    readKey first (utf8 (blanks gap) ++ Container.closing .object :: rest) = .ok (none, rest) := by
  unfold readKey
  rw [skipSpace_blanks, skipSpace_cons (by decide)]
  rfl

theorem readMembers_of_end {first : Bool} (h : readKey first text = .ok (none, rest)) :
    readMembers given first text = .ok (given, rest) := by
  rw [readMembers]
  split <;> simp_all

theorem readMembers_of_key {first : Bool} {key : List UInt8} {outcome : Given × List UInt8}
    (h : readKey first text = .ok (some key, rest)) :
    readMembers given first text = .ok outcome ↔
      ∃ given' after, readMember given key rest = .ok (given', after) ∧
        readMembers given' false after = .ok outcome := by
  rw [readMembers]
  split
  · simp_all
  · simp_all
  · rename_i key' rest' hkey
    rw [h] at hkey
    cases hkey
    split
    · simp_all
    · simp_all

/-- The members behind a comma, and the end of the object. -/
def further (members : List Member) (rest : List UInt8) : List UInt8 :=
  utf8 ((spellMembers members).flatMap (',' :: ·)) ++ Container.closing .object :: rest

/-- One turn: a key has been read, and the members behind it will be. -/
theorem readMembers_member {first : Bool} {before behind inner outer : List Blank}
    {key : List Piece} {value : Value} (hsaid : said? key = some said)
    (hkey : readKey first after = .ok (some (bytesOf said), utf8 (blanks behind) ++
      byte ':' :: (utf8 (Element.mk inner value outer).chars ++ further members rest)))
    (hmembers : ∀ given', readMembers given' false (utf8 (blanks outer) ++ further members rest) =
      .ok (result, text) ↔ TakesAll given' members result ∧ text = rest) :
    readMembers given first after = .ok (result, text) ↔
      TakesAll given (.mk before key behind (.mk inner value outer) :: members) result ∧
        text = rest := by
  rw [readMembers_of_key hkey, takesAll_cons_iff]
  have hstops : Stops (further members rest) := stops_further .object _ rest
  constructor
  · rintro ⟨given', left, hmember, hrest⟩
    obtain ⟨htakes, rfl⟩ := (readMember_iff before hsaid hstops).mp hmember
    obtain ⟨htakesAll, rfl⟩ := (hmembers given').mp hrest
    exact ⟨⟨given', htakes, htakesAll⟩, rfl⟩
  · rintro ⟨⟨given', htakes, htakesAll⟩, rfl⟩
    exact ⟨given', _, (readMember_iff before hsaid hstops).mpr ⟨htakes, rfl⟩,
      (hmembers given').mpr ⟨htakesAll, rfl⟩⟩

/-- Where there are no more members, the object ends. -/
theorem readMembers_closing (first : Bool) (gap : List Blank) :
    readMembers given first (utf8 (blanks gap) ++ Container.closing .object :: rest) =
      .ok (result, text) ↔ TakesAll given [] result ∧ text = rest := by
  rw [readMembers_of_end (readKey_end first gap rest), takesAll_nil_iff]
  simp [eq_comm]

/-- The members behind another one are read up to behind the object exactly if none of
them is refused. -/
theorem readMembers_further (hkeys : ∀ member ∈ members, member.key?.isSome) (gap : List Blank) :
    readMembers given false (utf8 (blanks gap) ++ further members rest) = .ok (result, text) ↔
      TakesAll given members result ∧ text = rest := by
  induction members generalizing given gap with
  | nil => exact readMembers_closing false gap
  | cons member members ih =>
      rcases member with ⟨before, key, behind, inner, value, outer⟩
      obtain ⟨said, hsaid⟩ := Option.isSome_iff_exists.mp (hkeys _ List.mem_cons_self)
      refine readMembers_member hsaid ?_ fun given' =>
        ih (fun member hmember => hkeys member (List.mem_cons_of_mem _ hmember)) outer
      have htext : further (.mk before key behind (.mk inner value outer) :: members) rest =
          byte ',' :: (utf8 (keyPart before key behind) ++
            byte ':' :: (utf8 (Element.mk inner value outer).chars ++ further members rest)) := by
        rw [further, spellMembers, utf8_further, utf8_member, List.append_assoc, List.cons_append]
        rfl
      rw [htext]
      exact readKey_further gap before behind hsaid _

/-- So are the members behind the opening brace. -/
theorem readMembers_first (hkeys : ∀ member ∈ members, member.key?.isSome) (gap : List Blank) :
    readMembers given true (utf8 (blanks gap) ++ (utf8 (separated (spellMembers members)) ++
        Container.closing .object :: rest)) = .ok (result, text) ↔
      TakesAll given members result ∧ text = rest := by
  cases members with
  | nil => exact readMembers_closing true gap
  | cons member members =>
      rcases member with ⟨before, key, behind, inner, value, outer⟩
      obtain ⟨said, hsaid⟩ := Option.isSome_iff_exists.mp (hkeys _ List.mem_cons_self)
      refine readMembers_member hsaid ?_ fun given' => readMembers_further
        (fun member hmember => hkeys member (List.mem_cons_of_mem _ hmember)) outer
      rw [spellMembers, separated, utf8_append, utf8_member, List.append_assoc, List.append_assoc,
        List.cons_append]
      exact readKey_first gap before behind hsaid _

/-- The bytes of an object as a whole text. -/
theorem bytesOf_text (document : Document) :
    bytesOf document.text = utf8 (blanks document.before) ++ byte '\x7b' ::
      (utf8 (blanks document.gap) ++ (utf8 (separated (spellMembers document.members)) ++
        Container.closing .object :: utf8 (blanks document.after))) := by
  unfold Document.text
  rw [bytesOf_ofList, Element.chars, Value.chars, utf8_append, utf8_append,
    utf8_cons_of_ascii (by decide), utf8_append, utf8_append, utf8_cons, utf8_objectEnd]
  simp

/-- An object as a whole text is read exactly if none of its members is refused. -/
theorem read_document_iff {document : Document} {settings : Settings}
    (hkeys : ∀ member ∈ document.members, member.key?.isSome) :
    read document.text = .ok settings ↔
      ∃ given, TakesAll .empty document.members given ∧ given.settings = settings := by
  have hmembers : ∀ given text, readGiven (bytesOf document.text) = .ok (given, text) ↔
      TakesAll .empty document.members given ∧ text = utf8 (blanks document.after) := by
    intro given text
    unfold readGiven
    rw [bytesOf_text, skipSpace_blanks, skipSpace_cons (by decide)]
    exact readMembers_first hkeys document.gap
  have hend : skipSpace (utf8 (blanks document.after)) = [] := by
    have hskipped := skipSpace_blanks document.after []
    rwa [List.append_nil] at hskipped
  unfold read readBytes
  rw [bind_eq_ok]
  constructor
  · rintro ⟨⟨given, text⟩, hread, hsettings⟩
    obtain ⟨htakes, rfl⟩ := (hmembers given text).mp hread
    simp only [hend] at hsettings
    exact ⟨given, htakes, Except.ok.inj hsettings⟩
  · rintro ⟨given, htakes, rfl⟩
    refine ⟨_, (hmembers given _).mpr ⟨htakes, rfl⟩, ?_⟩
    simp only [hend]
    rfl

/-! ## The answer -/

/-- What the reader answers for an object is read off the values. -/
theorem read_eq_ok_iff {document : Document} {settings : Settings}
    (hkeys : ∀ member ∈ document.members, member.key?.isSome) :
    read document.text = .ok settings ↔
      ∀ field, Says (valuesOf document.members field) (settings.get field) := by
  rw [read_document_iff hkeys]
  constructor
  · rintro ⟨given, htakes, rfl⟩ field
    refine says_iff.mpr ⟨given.get? field, ?_, (given.get_settings field).symm⟩
    rw [← takesAll_iff.mp htakes field]
    cases field <;> rfl
  · intro h
    obtain ⟨export?, hexport, hexport'⟩ := says_iff.mp (h .exportFullProject)
    obtain ⟨escape?, hescape, hescape'⟩ := says_iff.mp (h .escapeInvalidIdentifiers)
    refine ⟨⟨export?, escape?⟩, takesAll_iff.mpr fun field => ?_, ?_⟩
    · cases field with
      | exportFullProject => exact hexport
      | escapeInvalidIdentifiers => exact hescape
    · rcases settings with ⟨exportFullProject, escapeInvalidIdentifiers⟩
      exact congrArg₂ Settings.mk hexport' hescape'

/-- What the reader answers for an object, as long as its keys say something. It answers
with settings exactly if it finds no more than one value for each, and only true or
false; then a setting is what its value says, and off if it has none. So another object
that gives each setting the same values in some order, with any members beside them,
gets the same answer, or is refused as well. -/
theorem reads_by_values (document : Document)
    (hkeys : ∀ member ∈ document.members, member.key?.isSome) :
    ((∃ settings, read document.text = .ok settings) ↔ ∀ field,
      (valuesOf document.members field).length ≤ 1 ∧
        ∀ value ∈ valuesOf document.members field, ∃ truth, value = .boolean truth) ∧
    (∀ settings, read document.text = .ok settings ↔
      ∀ field, Says (valuesOf document.members field) (settings.get field)) ∧
    ∀ other : Document, (∀ member ∈ other.members, member.key?.isSome) →
      (∀ field, (valuesOf other.members field).Perm (valuesOf document.members field)) →
        ∀ settings, read other.text = .ok settings ↔ read document.text = .ok settings := by
  refine ⟨?_, fun settings => read_eq_ok_iff hkeys, fun other hother hperm settings => ?_⟩
  · constructor
    · rintro ⟨settings, hread⟩ field
      exact exists_says_iff.mp ⟨_, (read_eq_ok_iff hkeys).mp hread field⟩
    · intro h
      obtain ⟨exportFullProject, hexport⟩ := exists_says_iff.mpr (h .exportFullProject)
      obtain ⟨escapeInvalidIdentifiers, hescape⟩ :=
        exists_says_iff.mpr (h .escapeInvalidIdentifiers)
      refine ⟨⟨exportFullProject, escapeInvalidIdentifiers⟩,
        (read_eq_ok_iff hkeys).mpr fun field => ?_⟩
      cases field with
      | exportFullProject => exact hexport
      | escapeInvalidIdentifiers => exact hescape
  · rw [read_eq_ok_iff hother, read_eq_ok_iff hkeys]
    exact ⟨fun h field => (h field).perm (hperm field),
      fun h field => (h field).perm (hperm field).symm⟩

/-- A string of the characters of a text that need no escape. -/
def spell (text : String) : List Piece :=
  text.toList.filterMap fun c =>
    if h : 0x20 ≤ c.toNat ∧ c ≠ '"' ∧ c ≠ '\\' then some (.plain ⟨c, h⟩) else none

/-- A member without blanks. -/
def bare (key : List Piece) (value : Value) : Member := .mk [] key [] (.mk [] value [])

/-- A hexadecimal digit, of lower case if it is a letter. -/
def lower (n : Nat) (h : n < 16) : HexDigit := ⟨⟨n, h⟩, false⟩

/-- The first half of a pair. -/
def lone : Piece :=
  .unicode ⟨⟨13, by decide⟩, true⟩ (lower 8 (by decide)) (lower 3 (by decide))
    (lower 13 (by decide))

/-- The letter e by its number. -/
def escapedLetter : Piece :=
  .unicode (lower 0 (by decide)) (lower 0 (by decide)) (lower 6 (by decide)) (lower 5 (by decide))

/-- A number with all parts that one can have. -/
def fullNumeral : Numeral where
  negative := true
  whole := .zero
  fraction? := some ⟨⟨0, by decide⟩, [⟨5, by decide⟩]⟩
  exponent? := some ⟨true, some .plus, ⟨0, by decide⟩, [⟨7, by decide⟩]⟩

/-- An object with an escape in the key of a setting, and with two members of one other
name, of which the first holds keys and strings that say nothing. -/
def crowded : Document where
  before := [.newline]
  gap := [.space, .tab]
  members :=
    [bare (escapedLetter :: spell "xportFullProject") (.boolean true),
      .mk [] (spell "x") [.space] (.mk [.space]
        (.list []
          [.mk [.carriageReturn] (.object [] [bare [lone] (.string [.escape .slash, lone])]) [],
            .mk [] (.number fullNumeral) [.newline]])
        [.space]),
      bare (spell "x") .null,
      bare (spell "escapeInvalidIdentifiers") (.boolean false)]
  after := [.newline]

/-- The same settings the other way round, and nothing else. -/
def sparse : Document where
  before := []
  gap := []
  members :=
    [bare (spell "escapeInvalidIdentifiers") (.boolean false),
      bare (spell "exportFullProject") (.boolean true)]
  after := []

theorem valuesOf_crowded (field : Field) :
    valuesOf crowded.members field = [.boolean (field == .exportFullProject)] := by
  unfold crowded
  cases field with
  | exportFullProject =>
      rw [valuesOf_cons_of_eq (by decide +kernel), valuesOf_cons_of_ne (by decide +kernel),
        valuesOf_cons_of_ne (by decide +kernel), valuesOf_cons_of_ne (by decide +kernel)]
      rfl
  | escapeInvalidIdentifiers =>
      rw [valuesOf_cons_of_ne (by decide +kernel), valuesOf_cons_of_ne (by decide +kernel),
        valuesOf_cons_of_ne (by decide +kernel), valuesOf_cons_of_eq (by decide +kernel)]
      rfl

theorem valuesOf_sparse (field : Field) :
    valuesOf sparse.members field = [.boolean (field == .exportFullProject)] := by
  unfold sparse
  cases field with
  | exportFullProject =>
      rw [valuesOf_cons_of_ne (by decide +kernel), valuesOf_cons_of_eq (by decide +kernel)]
      rfl
  | escapeInvalidIdentifiers =>
      rw [valuesOf_cons_of_eq (by decide +kernel), valuesOf_cons_of_ne (by decide +kernel)]
      rfl

/-- Both are read as the same settings. -/
theorem reads_crowded :
    crowded.text =
        "\n\x7b \t\"\\u0065xportFullProject\":true,\"x\" : [\r\x7b\"\\uD83d\":\"\\/\\uD83d\"\x7d," ++
          "-0.05E+07\n] ,\"x\":null,\"escapeInvalidIdentifiers\":false\x7d\n" ∧
      read crowded.text = .ok ⟨true, false⟩ ∧ read sparse.text = .ok ⟨true, false⟩ := by
  have hkeys : ∀ member ∈ crowded.members, member.key?.isSome := by decide +kernel
  have hother : ∀ member ∈ sparse.members, member.key?.isSome := by decide +kernel
  obtain ⟨-, hanswer, hsame⟩ := reads_by_values crowded hkeys
  have hread : read crowded.text = .ok ⟨true, false⟩ := by
    refine (hanswer _).mpr fun field => .inr ?_
    rw [valuesOf_crowded]
    cases field <;> rfl
  refine ⟨by decide +kernel, hread, (hsame sparse hother (fun field => ?_) _).mpr hread⟩
  rw [valuesOf_crowded, valuesOf_sparse]

end Decompiled.Settings
