import CallCountLint.Cli.Run
import CallCountLint.Proofs.Json.Writing

/-!
This module contains which configurations are read from JSON objects. The text is read from left to
right, but what comes of it depends on the members of the object only: neither the order of the
members nor the spelling of anything matters.
-/

namespace CallCountLint

open Json

namespace Config

theorem Field.ofKey?_eq_some_iff {key : List Char} {field : Field} :
    Field.ofKey? key = some field ↔ field.key.toList = key := by
  unfold Field.ofKey?
  constructor
  . intro h
    simpa using List.find?_some h
  . rintro rfl
    cases field <;> decide

theorem Field.key_injective : Function.Injective Field.key := by
  intro field other h
  cases field <;> cases other <;> simp [key] at h ⊢

def Draft.add? (draft : Draft) (member : String × Data) : Option Draft := do
  let field ← Field.ofKey? member.1.toList
  let value ← member.2.string?
  if draft.get? field = none then some (draft.set field value) else none

/--
A reader gets what is expected of it, and leaves a text for the given tokens, or it fails if nothing
is expected.
-/
def Reads {α : Type} (expected : Option α) (tokens : List Token)
    (result : Except ReadError (α × List Char)) : Prop :=
  match expected with
  | some value => ∃ rest, SpelledTokens tokens rest ∧ result = .ok (value, rest)
  | none => ∃ error, result = .error error

namespace Reads

variable {α β : Type} {expected : Option α} {tokens : List Token}
  {result : Except ReadError (α × List Char)}

theorem map (h : Reads expected tokens result) (f : α → β) :
    Reads (expected.map f) tokens (result.map (Prod.map f id)) := by
  cases expected with
  | none =>
    obtain ⟨error, rfl⟩ := h
    exact ⟨error, rfl⟩
  | some value =>
    obtain ⟨rest, hrest, rfl⟩ := h
    exact ⟨rest, hrest, rfl⟩

theorem bind {further : α → Option β} {tokens' : List Token}
    {go : α × List Char → Except ReadError (β × List Char)} (h : Reads expected tokens result)
    (hgo : ∀ value rest, SpelledTokens tokens rest →
      Reads (further value) tokens' (go (value, rest))) :
    Reads (expected.bind further) tokens' (result.bind go) := by
  cases expected with
  | none =>
    obtain ⟨error, rfl⟩ := h
    exact ⟨error, rfl⟩
  | some value =>
    obtain ⟨rest, hrest, rfl⟩ := h
    exact hgo value rest hrest

end Reads

theorem readString_of_spelled {value inside : List Char} (h : SpelledString value inside)
    (rest : List Char) : readString (inside ++ '"' :: rest) = .ok (value, rest) := by
  unfold readString
  rw [scanString_of_spelled h]

theorem readVersion_of_not_string {text : List Char} (h : ∀ rest, skipBlank text ≠ '"' :: rest) :
    readVersion text = .error (mismatch .string (skipBlank text)) := by
  unfold readVersion
  split
  . next heq => exact absurd heq (h _)
  . rfl

theorem reads_version {value : Data} {tokens : List Token} {text : List Char}
    (h : SpelledTokens (value.tokens ++ tokens) text) :
    Reads value.string? tokens (readVersion text) := by
  cases hstring : value.string? with
  | none =>
    obtain ⟨token, more, htokens, htoken⟩ := value.exists_tokens_eq_cons
    rw [htokens] at h
    have hquote := h.skipBlank_ne_quote fun version hversion => by
      simp [htoken version hversion, Data.string?] at hstring
    exact ⟨_, readVersion_of_not_string hquote⟩
  | some version =>
    obtain rfl := Data.string?_eq_some_iff.mp hstring
    obtain ⟨inside, rest, hinside, hrest, hskip⟩ := h.next_string
    refine ⟨rest, hrest, ?_⟩
    unfold readVersion
    rw [hskip]
    simp only [readString_of_spelled hinside, bind, Except.bind, String.ofList_toList]
    rfl

section

variable {draft : Draft} {text key rest : List Char} {field : Field}

theorem readMember_of_unknown (htext : readString text = .ok (key, rest))
    (hfield : Field.ofKey? key = none) : readMember draft text = .error (.unknownField key) := by
  unfold readMember
  rw [htext]
  simp only [bind, Except.bind, hfield]
  rfl

theorem readMember_of_duplicate {value : String} (htext : readString text = .ok (key, rest))
    (hfield : Field.ofKey? key = some field) (hvalue : draft.get? field = some value) :
    readMember draft text = .error (.duplicateField field) := by
  unfold readMember
  rw [htext]
  simp only [bind, Except.bind, hfield]
  split
  . rfl
  . next hnone => simp [hnone] at hvalue

theorem readMember_of_new {rest' : List Char} (htext : readString text = .ok (key, rest))
    (hfield : Field.ofKey? key = some field) (hvalue : draft.get? field = none)
    (hcolon : skipBlank rest = ':' :: rest') :
    readMember draft text = (readVersion rest').map fun (value, rest) =>
      (⟨draft.set field value, Draft.missing_set_lt value hvalue⟩, rest) := by
  unfold readMember
  rw [htext]
  simp only [bind, Except.bind, hfield]
  split
  . next hsome => simp [hsome] at hvalue
  . simp only [hcolon]
    cases readVersion rest' <;> rfl

end

theorem reads_member (draft : Draft) {key : String} {value : Data} {tokens : List Token}
    {inside rest : List Char} (hkey : SpelledString key.toList inside)
    (h : SpelledTokens (.mark .colon :: (value.tokens ++ tokens)) rest) :
    Reads (draft.add? (key, value)) tokens
      ((readMember draft (inside ++ '"' :: rest)).map (Prod.map Subtype.val id)) := by
  have htext := readString_of_spelled hkey rest
  obtain ⟨rest', hrest', hcolon⟩ := h.next_mark
  cases hfield : Field.ofKey? key.toList with
  | none =>
    have hadd : draft.add? (key, value) = none := by simp [Draft.add?, hfield]
    rw [hadd, readMember_of_unknown htext hfield]
    exact ⟨_, rfl⟩
  | some field =>
    cases hget : draft.get? field with
    | some other =>
      have hadd : draft.add? (key, value) = none := by simp [Draft.add?, hfield, hget]
      rw [hadd, readMember_of_duplicate htext hfield hget]
      exact ⟨_, rfl⟩
    | none =>
      have hadd : draft.add? (key, value) = value.string?.map (draft.set field) := by
        simp [Draft.add?, hfield, hget, Option.map_eq_bind]
      have hvalue := (reads_version hrest').map (draft.set field)
      rw [hadd, readMember_of_new htext hfield hget hcolon]
      cases hread : readVersion rest' <;> rwa [hread] at hvalue

theorem readMembers_eq (draft : Draft) (text : List Char) :
    readMembers draft text =
      ((readMember draft text).map (Prod.map Subtype.val id)).bind fun (next, text) =>
        match skipBlank text with
        | '\x7d' :: text => .ok (next, text)
        | ',' :: text =>
          match skipBlank text with
          | '"' :: text => readMembers next text
          | text => .error (unexpected text)
        | text => .error (unexpected text) := by
  rw [readMembers]
  cases readMember draft text <;> rfl

theorem reads_members (draft : Draft) {key : String} {value : Data}
    {members : List (String × Data)} {tokens : List Token} {inside rest : List Char}
    (hkey : SpelledString key.toList inside)
    (h : SpelledTokens (.mark .colon :: (value.tokens ++ (memberTokens members ++ tokens))) rest) :
    Reads (((key, value) :: members).foldlM Draft.add? draft) tokens
      (readMembers draft (inside ++ '"' :: rest)) := by
  rw [readMembers_eq, List.foldlM_cons]
  refine (reads_member draft hkey h).bind fun next after hafter => ?_
  cases members with
  | nil =>
    obtain ⟨text, htext, hbrace⟩ := hafter.next_mark
    simp only [hbrace]
    exact ⟨text, htext, rfl⟩
  | cons member members =>
    obtain ⟨key', value'⟩ := member
    rw [memberTokens, List.cons_append, List.cons_append, List.cons_append,
      List.append_assoc] at hafter
    obtain ⟨text, htext, hcomma⟩ := hafter.next_mark
    obtain ⟨inside', rest', hkey', hrest', hquote⟩ := htext.next_string
    simp only [hcomma, hquote, Mark.char]
    exact reads_members next hkey' hrest'

theorem exists_readObject {members : List (String × Data)} {text : List Char}
    (h : (Data.object members).SpelledAs text) :
    ∃ rest, skipBlank text = '\x7b' :: rest
      ∧ Reads (members.foldlM Draft.add? {}) [] (readObject rest) := by
  cases members with
  | nil =>
    obtain ⟨rest, hrest, hbrace⟩ := h.next_mark
    obtain ⟨after, hafter, hclose⟩ := hrest.next_mark
    refine ⟨rest, hbrace, after, hafter, ?_⟩
    unfold readObject
    rw [hclose]
    rfl
  | cons member members =>
    obtain ⟨key, value⟩ := member
    obtain ⟨rest, hrest, hbrace⟩ := h.next_mark
    obtain ⟨inside, after, hkey, hafter, hquote⟩ := hrest.next_string
    refine ⟨rest, hbrace, ?_⟩
    unfold readObject
    rw [hquote]
    exact reads_members {} hkey (by simpa using hafter)

theorem read_of_brace {text rest : List Char} (h : skipBlank text = '\x7b' :: rest) :
    read text = (readObject rest).bind fun (draft, after) =>
      if (skipBlank after).isEmpty then .ok draft.toConfig else .error malformed := by
  unfold read
  rw [h]
  rfl

theorem read_of_object {members : List (String × Data)} {text : List Char}
    (h : (Data.object members).SpelledAs text) :
    match members.foldlM Draft.add? {} with
    | some draft => read text = .ok draft.toConfig
    | none => ∃ error, read text = .error error := by
  obtain ⟨rest, hbrace, hreads⟩ := exists_readObject h
  rw [read_of_brace hbrace]
  cases hadd : members.foldlM Draft.add? {} with
  | none =>
    rw [hadd] at hreads
    obtain ⟨error, herror⟩ := hreads
    rw [herror]
    exact ⟨error, rfl⟩
  | some draft =>
    rw [hadd] at hreads
    obtain ⟨after, hafter, hread⟩ := hreads
    rw [hread]
    simp [Except.bind, hafter.skipBlank_of_nil]

theorem Draft.add?_eq_some_iff {draft next : Draft} {member : String × Data} :
    draft.add? member = some next ↔
      ∃ field version, member = (field.key, .string version) ∧ draft.get? field = none
        ∧ next = draft.set field version := by
  obtain ⟨key, value⟩ := member
  simp only [add?, Option.bind_eq_bind, Option.bind_eq_some_iff, Option.ite_none_right_eq_some,
    Option.some.injEq, Field.ofKey?_eq_some_iff, Data.string?_eq_some_iff, String.toList_inj,
    Prod.mk.injEq]
  grind

theorem Draft.get?_set_eq_none_iff {draft : Draft} {field other : Field} {version : String} :
    (draft.set field version).get? other = none ↔ other ≠ field ∧ draft.get? other = none := by
  cases field <;> cases other <;> simp [set, get?]

theorem Draft.keys_of_foldlM {draft final : Draft} {members : List (String × Data)}
    (h : members.foldlM Draft.add? draft = some final) :
    (members.map Prod.fst).Nodup
      ∧ ∀ key ∈ members.map Prod.fst, ∃ field : Field, field.key = key
        ∧ draft.get? field = none := by
  induction members generalizing draft with
  | nil => simp
  | cons member members ih =>
    rw [List.foldlM_cons, Option.bind_eq_bind, Option.bind_eq_some_iff] at h
    obtain ⟨next, hadd, hfold⟩ := h
    obtain ⟨field, version, rfl, hnone, rfl⟩ := add?_eq_some_iff.mp hadd
    obtain ⟨hnodup, hkeys⟩ := ih hfold
    simp only [Draft.get?_set_eq_none_iff] at hkeys
    rw [List.map_cons, List.nodup_cons, List.forall_mem_cons]
    refine ⟨⟨fun hkey => ?_, hnodup⟩, ⟨field, rfl, hnone⟩, fun key hkey => ?_⟩
    . obtain ⟨other, heq, hne, -⟩ := hkeys _ hkey
      exact hne (Field.key_injective heq)
    . obtain ⟨other, heq, -, hother⟩ := hkeys key hkey
      exact ⟨other, heq, hother⟩

def entries (deprecatedIn removedIn : Option String) : List (String × Data) :=
  (deprecatedIn.map fun version => ("deprecated-in", .string version)).toList
    ++ (removedIn.map fun version => ("removed-in", .string version)).toList

theorem foldlM_entries {deprecatedIn removedIn : Option String} {members : List (String × Data)}
    (h : members.Perm (entries deprecatedIn removedIn)) :
    members.foldlM Draft.add? {} = some ⟨deprecatedIn, removedIn⟩ := by
  have hdeprecated (draft : Draft) (version : String) (hnone : draft.deprecatedIn = none) :
      draft.add? ("deprecated-in", .string version) = some { draft with deprecatedIn := version } :=
    Draft.add?_eq_some_iff.mpr ⟨.deprecatedIn, version, rfl, hnone, rfl⟩
  have hremoved (draft : Draft) (version : String) (hnone : draft.removedIn = none) :
      draft.add? ("removed-in", .string version) = some { draft with removedIn := version } :=
    Draft.add?_eq_some_iff.mpr ⟨.removedIn, version, rfl, hnone, rfl⟩
  cases deprecatedIn with
  | none =>
    cases removedIn with
    | none =>
      obtain rfl := List.perm_nil.mp h
      rfl
    | some removedIn =>
      obtain rfl := List.perm_singleton.mp h
      simp [hremoved]
  | some deprecatedIn =>
    cases removedIn with
    | none =>
      obtain rfl := List.perm_singleton.mp h
      simp [hdeprecated]
    | some removedIn =>
      rcases List.perm_pair.mp h with rfl | rfl <;> simp [hdeprecated, hremoved]

theorem read_of_entries {deprecatedIn removedIn : Option String} {members : List (String × Data)}
    {text : List Char} (hmembers : members.Perm (entries deprecatedIn removedIn))
    (h : (Data.object members).SpelledAs text) :
    read text = .ok {
      deprecatedIn := deprecatedIn.getD "5.0.0"
      removedIn := removedIn.getD "6.0.0" } := by
  have hread := read_of_object h
  rw [foldlM_entries hmembers] at hread
  exact hread

theorem read_of_wrong_keys {members : List (String × Data)} {text : List Char}
    (hkeys : (∃ key ∈ members.map Prod.fst, key ≠ "deprecated-in" ∧ key ≠ "removed-in")
      ∨ ¬ (members.map Prod.fst).Nodup)
    (h : (Data.object members).SpelledAs text) : ∃ error, read text = .error error := by
  have hread := read_of_object h
  cases hadd : members.foldlM Draft.add? {} with
  | none =>
    rw [hadd] at hread
    exact hread
  | some draft =>
    obtain ⟨hnodup, hknown⟩ := Draft.keys_of_foldlM hadd
    rcases hkeys with ⟨key, hkey, hdeprecated, hremoved⟩ | hrepeated
    . obtain ⟨field, rfl, -⟩ := hknown key hkey
      cases field with
      | deprecatedIn => exact absurd rfl hdeprecated
      | removedIn => exact absurd rfl hremoved
    . exact absurd hnodup hrepeated

def toValue (config : Config) : Value :=
  .object [("deprecated-in", .string config.deprecatedIn), ("removed-in", .string config.removedIn)]

theorem read_of_toValue {config : Config} {text : List Char}
    (h : config.toValue.toData.SpelledAs text) : read text = .ok config :=
  read_of_entries (.refl (entries (some config.deprecatedIn) (some config.removedIn))) h

end Config

namespace Cli.Options

/--
What the configuration file gives for the two fields. Without a file, nothing is given.
-/
inductive FileGives (options : Options) (read : String → Except FileError Text) :
    Option String → Option String → Prop where
  | none (config_eq : options.config = none) : FileGives options read none none
  | object {path : String} {text : Text} {members : List (String × Data)}
    {deprecatedIn removedIn : Option String} (config_eq : options.config = some path)
    (read_eq : read path = .ok text)
    (members_perm : members.Perm (Config.entries deprecatedIn removedIn))
    (spelled : (Data.object members).SpelledAs text) :
    FileGives options read deprecatedIn removedIn

variable {options : Options} {read : String → Except FileError Text}

theorem resolveConfig_of_none (h : options.config = none) :
    options.resolveConfig read = .ok {
      deprecatedIn := options.deprecatedIn.getD "5.0.0"
      removedIn := options.removedIn.getD "6.0.0" } := by
  simp only [resolveConfig, h]
  rfl

theorem resolveConfig_of_read {path : String} {text : Text} {config : Config}
    (hpath : options.config = some path) (htext : read path = .ok text)
    (hconfig : Config.read text = .ok config) :
    options.resolveConfig read = .ok {
      deprecatedIn := options.deprecatedIn.getD config.deprecatedIn
      removedIn := options.removedIn.getD config.removedIn } := by
  simp only [resolveConfig, hpath, htext, hconfig]
  rfl

theorem resolveConfig_of_fileGives {deprecatedIn removedIn : Option String}
    (h : options.FileGives read deprecatedIn removedIn) :
    options.resolveConfig read = .ok {
      deprecatedIn := (options.deprecatedIn.or deprecatedIn).getD "5.0.0"
      removedIn := (options.removedIn.or removedIn).getD "6.0.0" } := by
  cases h with
  | none config_eq => simp [resolveConfig_of_none config_eq]
  | object config_eq read_eq members_perm spelled =>
    rw [resolveConfig_of_read config_eq read_eq (Config.read_of_entries members_perm spelled)]
    simp [Option.getD_or]

end Cli.Options

open Cli in
/--
A configuration is read from an object whatever the order of its members and the spelling of
anything, so it is read back from every text for it, and no other keys are accepted. A field is what
the command line says, or else what the file says, or else the default.
-/
theorem config_resolves_by_field :
    (∀ (deprecatedIn removedIn : Option String) (members : List (String × Data)) (text : Text),
      members.Perm (Config.entries deprecatedIn removedIn) →
      (Data.object members).SpelledAs text →
      Config.read text = .ok {
        deprecatedIn := deprecatedIn.getD "5.0.0"
        removedIn := removedIn.getD "6.0.0" })
    ∧ (∀ (config : Config) (text : Text), config.toValue.toData.SpelledAs text →
      Config.read text = .ok config)
    ∧ (∀ (config : Config) (depth : Nat), Config.read (config.toValue.write depth) = .ok config)
    ∧ (∀ (members : List (String × Data)) (text : Text),
      (∃ key ∈ members.map Prod.fst, key ≠ "deprecated-in" ∧ key ≠ "removed-in")
        ∨ ¬ (members.map Prod.fst).Nodup →
      (Data.object members).SpelledAs text → ∃ error, Config.read text = .error error)
    ∧ ∀ (options : Options) (read : String → Except FileError Text)
      (deprecatedIn removedIn : Option String), options.FileGives read deprecatedIn removedIn →
      options.resolveConfig read = .ok {
        deprecatedIn := (options.deprecatedIn.or deprecatedIn).getD "5.0.0"
        removedIn := (options.removedIn.or removedIn).getD "6.0.0" } := by
  refine ⟨fun _ _ _ _ => Config.read_of_entries, fun _ _ => Config.read_of_toValue, ?_,
    fun _ _ => Config.read_of_wrong_keys, fun _ _ _ _ => Options.resolveConfig_of_fileGives⟩
  intro config depth
  exact Config.read_of_toValue (config.toValue.spelledAs_write depth)

/--
Both fields, the second one first, with blanks and escapes in unusual places.
-/
def Config.unusual : Text :=
  " \x7b\"removed-in\":\n\"\\ud83D\\uDe00\" ,\"deprecated\\u002din\" : \"\\/\\\"\"\t\x7d".toList

/--
A field twice, in two spellings.
-/
def Config.repeated : Text :=
  "\x7b\"removed-in\":\"7.0.0\",\"removed\\u002Din\":[-1e2]\x7d".toList

open Cli in
theorem config_resolves_by_field_unusual :
    Config.read Config.unusual = .ok { deprecatedIn := "/\"", removedIn := "😀" }
    ∧ Config.read (Value.write 0 (Config.toValue {})) = .ok {}
    ∧ (∃ error, Config.read Config.repeated = .error error)
    ∧ ({ path := "", config := some "", removedIn := some "7.0.0" } : Options).resolveConfig
        (fun _ => .ok Config.unusual) = .ok { deprecatedIn := "/\"", removedIn := "7.0.0" } := by
  have hperm : List.Perm [("removed-in", .string "😀"), ("deprecated-in", .string "/\"")]
      (Config.entries (some "/\"") (some "😀")) := .swap _ _ _
  have hunusual : (Data.object
      [("removed-in", .string "😀"), ("deprecated-in", .string "/\"")]).SpelledAs Config.unusual :=
    read?_eq_some_iff.mp (by cbv)
  have hrepeated : (Data.object
      [("removed-in", .string "7.0.0"), ("removed-in", .array [.number (-100)])]).SpelledAs
        Config.repeated :=
    read?_eq_some_iff.mp (by cbv)
  obtain ⟨hread, hback, -, hwrong, hresolve⟩ := config_resolves_by_field
  exact ⟨hread _ _ _ _ hperm hunusual, hback _ _ (Value.spelledAs_write _ 0),
    hwrong _ _ (.inr (by decide)) hrepeated, hresolve _ _ _ _ (.object rfl rfl hperm hunusual)⟩

end CallCountLint
