import Mathlib.Data.List.TakeWhile
import TieredCache.Settings.Environment

/-!
# The grammar of an environment

Which environments give settings, which settings they give, and which fault the others are refused with. The
grammar is stated on whole texts: white space, then what counts, then white space again.
-/

namespace TieredCache

/-! ## White space around a text -/

namespace Text

/-- A text with white space around it, or none. -/
def Padded (core text : List Char) : Prop :=
  ∃ before after, text = before ++ core ++ after ∧ (∀ character ∈ before, isBlank character = true) ∧
    ∀ character ∈ after, isBlank character = true

/-- What is trimmed off a text is white space. -/
theorem padded_trim (text : List Char) : Padded (trim text) text := by
  have front := List.takeWhile_append_dropWhile (p := isBlank) (l := text)
  have back := List.takeWhile_append_dropWhile (p := isBlank) (l := (text.dropWhile isBlank).reverse)
  have ending := congrArg List.reverse back
  rw [List.reverse_append, List.reverse_reverse] at ending
  refine ⟨text.takeWhile isBlank, ((text.dropWhile isBlank).reverse.takeWhile isBlank).reverse, ?_, ?_, ?_⟩
  · rw [List.append_assoc, trim, ending, front]
  · exact fun character => List.mem_takeWhile_imp
  · exact fun character among => List.mem_takeWhile_imp (List.mem_reverse.1 among)

/-- A text without white space in it has none to be dropped. -/
theorem dropWhile_solid {core : List Char} (solid : ∀ character ∈ core, isBlank character = false) :
    core.dropWhile isBlank = core := by
  cases core with
  | nil => rfl
  | cons first later =>
      exact List.dropWhile_cons_of_neg (Bool.eq_false_iff.1 (solid first List.mem_cons_self))

/-- What is left when a text is trimmed is what had white space around it, if there is none in it. -/
theorem trim_of_padded {core text : List Char} (padded : Padded core text)
    (solid : ∀ character ∈ core, isBlank character = false) : trim text = core := by
  obtain ⟨before, after, rfl, blank_before, blank_after⟩ := padded
  have front : (before ++ core ++ after).dropWhile isBlank = (core ++ after).dropWhile isBlank := by
    rw [List.append_assoc, List.dropWhile_append_of_pos blank_before]
  rw [trim, front, List.dropWhile_append, dropWhile_solid solid]
  -- If nothing is between them, the white space after it is dropped together with that before it.
  cases core with
  | nil =>
      rw [List.isEmpty_nil, if_pos rfl, List.dropWhile_eq_nil_iff.2 blank_after]
      rfl
  | cons first later =>
      have blank_end : ∀ character ∈ after.reverse, isBlank character = true :=
        fun character among => blank_after character (List.mem_reverse.1 among)
      have solid_end : ∀ character ∈ (first :: later).reverse, isBlank character = false :=
        fun character among => solid character (List.mem_reverse.1 among)
      rw [List.isEmpty_cons, if_neg Bool.false_ne_true, List.reverse_append,
        List.dropWhile_append_of_pos blank_end, dropWhile_solid solid_end, List.reverse_reverse]

end Text

namespace Settings

open Text

/-! ## Memory limits -/

/-- The number that decimal digits stand for. -/
def numeral (digits : List Char) : Nat :=
  digits.foldl (fun value digit => 10 * value + (digit.toNat - '0'.toNat)) 0

/-- A text states a memory limit: decimal digits, at least one, that may follow a plus sign, with white space
around them. The limit fits 64 bits. -/
def StatesLimit (text : String) (limit : Nat) : Prop :=
  ∃ sign digits, Padded (sign ++ digits) text.toList ∧ (sign = [] ∨ sign = ['+']) ∧ digits ≠ [] ∧
    (∀ digit ∈ digits, '0' ≤ digit ∧ digit ≤ '9') ∧ numeral digits = limit ∧ limit < 2 ^ 64

theorem isDigit_iff {character : Char} :
    character.isDigit = true ↔ '0' ≤ character ∧ character ≤ '9' := by
  simp [Char.isDigit, Char.le_def]

theorem number?_eq_some_iff {digits : List Char} {number : Nat} :
    number? digits = some number ↔
      digits ≠ [] ∧ (∀ digit ∈ digits, '0' ≤ digit ∧ digit ≤ '9') ∧ numeral digits = number := by
  rw [number?]
  split
  · rename_i refused
    refine iff_of_false (by simp) ?_
    rintro ⟨nonempty, decimal, _⟩
    have digits_all : digits.all Char.isDigit = true :=
      List.all_eq_true.2 fun digit among => isDigit_iff.2 (decimal digit among)
    simp [nonempty, digits_all] at refused
  · rename_i accepted
    simp only [Bool.or_eq_true, List.isEmpty_iff, Bool.not_eq_true', not_or, Bool.not_eq_false,
      List.all_eq_true] at accepted
    rw [Option.some.injEq]
    exact ⟨fun same => ⟨accepted.1, fun digit among => isDigit_iff.1 (accepted.2 digit among), same⟩,
      fun stated => stated.2.2⟩

/-- What is left of a text without its plus sign. -/
def unsigned : List Char → List Char
  | '+' :: rest => rest
  | characters => characters

theorem memoryLimit?_eq (text : String) :
    memoryLimit? text = (number? (unsigned (trim text.toList))).filter fun limit =>
      decide (limit ≤ maxMemoryLimit) := by
  rw [memoryLimit?]
  generalize trim text.toList = characters
  unfold unsigned
  rfl

/-- A text without its plus sign, which it may have, is what comes after it. -/
theorem eq_unsigned (characters : List Char) :
    ∃ sign, (sign = [] ∨ sign = ['+']) ∧ characters = sign ++ unsigned characters := by
  unfold unsigned
  split
  · exact ⟨['+'], .inr rfl, rfl⟩
  · exact ⟨[], .inl rfl, rfl⟩

theorem unsigned_of_decimal {digits : List Char} (decimal : ∀ digit ∈ digits, '0' ≤ digit ∧ digit ≤ '9') :
    unsigned digits = digits := by
  unfold unsigned
  split
  · exact absurd (decimal '+' List.mem_cons_self).1 (by decide)
  · rfl

/-- A character that counts in a memory limit is not white space. -/
theorem solid_limit {sign digits : List Char} (signs : sign = [] ∨ sign = ['+'])
    (decimal : ∀ digit ∈ digits, '0' ≤ digit ∧ digit ≤ '9') :
    ∀ character ∈ sign ++ digits, isBlank character = false := by
  intro character among
  rcases List.mem_append.1 among with sign_mem | digit_mem
  · rcases signs with rfl | rfl
    · cases sign_mem
    · obtain rfl := List.mem_singleton.1 sign_mem
      decide
  · obtain ⟨low, high⟩ := decimal character digit_mem
    have low : 48 ≤ character.toNat := Char.le_def.1 low
    have high : character.toNat ≤ 57 := Char.le_def.1 high
    simp only [isBlank, blankRanges, List.any_cons, List.any_nil, Bool.or_false, Bool.or_eq_false_iff,
      Bool.and_eq_false_iff, decide_eq_false_iff_not]
    omega

/-- A memory limit is read from the texts that state it, and from no others. -/
theorem memoryLimit?_eq_some_iff {text : String} {limit : Nat} :
    memoryLimit? text = some limit ↔ StatesLimit text limit := by
  rw [memoryLimit?_eq, Option.filter_eq_some_iff, number?_eq_some_iff, decide_eq_true_iff]
  constructor
  · rintro ⟨⟨nonempty, decimal, value⟩, fits⟩
    obtain ⟨sign, signs, parts⟩ := eq_unsigned (trim text.toList)
    have padded := padded_trim text.toList
    rw [parts] at padded
    exact ⟨sign, _, padded, signs, nonempty, decimal, value, Nat.lt_of_le_pred (by decide) fits⟩
  · rintro ⟨sign, digits, padded, signs, nonempty, decimal, value, fits⟩
    have rest : unsigned (trim text.toList) = digits := by
      rw [trim_of_padded padded (solid_limit signs decimal)]
      rcases signs with rfl | rfl
      · exact unsigned_of_decimal decimal
      · rfl
    rw [rest]
    exact ⟨⟨nonempty, decimal, value⟩, Nat.le_pred_of_lt fits⟩

/-! ## Switches -/

/-- The words that a truth value is stated with. -/
def words : Bool → List String
  | true => ["1", "true", "yes", "on"]
  | false => ["0", "false", "no", "off"]

/-- A text states a truth value: a word for it, in letters of either case, with white space around it. -/
def StatesSwitch (text : String) (value : Bool) : Prop :=
  ∃ word, Padded word text.toList ∧ String.ofList (word.map Char.toLower) ∈ words value

/-- White space has no lower case. -/
theorem toLower_of_isBlank {character : Char} (blank : isBlank character = true) :
    character.toLower = character := by
  have apart : ¬ ('A'.val ≤ character.val ∧ character.val ≤ 'Z'.val) := by
    rintro ⟨low, high⟩
    have low : 65 ≤ character.toNat := low
    have high : character.toNat ≤ 90 := high
    simp only [isBlank, blankRanges, List.any_cons, List.any_nil, Bool.or_false, Bool.or_eq_true,
      Bool.and_eq_true, decide_eq_true_iff] at blank
    omega
  exact dif_neg apart

/-- There is no white space in a word, nor in what it is the lower case of. -/
theorem solid_word {value : Bool} {word : List Char}
    (listed : String.ofList (word.map Char.toLower) ∈ words value) :
    ∀ character ∈ word, isBlank character = false := by
  have solid : ((words value).all fun known => known.toList.all fun character => !isBlank character) = true := by
    cases value with
    | true => decide
    | false => decide
  have known := List.all_eq_true.1 solid _ listed
  rw [String.toList_ofList] at known
  intro character among
  have lower := List.all_eq_true.1 known character.toLower (List.mem_map_of_mem among)
  rw [Bool.eq_false_iff]
  intro blank
  rw [toLower_of_isBlank blank, blank] at lower
  cases lower

/-- No word is for both truth values, so that the order in which they are tried does not count. -/
theorem switch?_eq_some_iff_listed {text : String} {value : Bool} :
    switch? text = some value ↔ String.ofList ((trim text.toList).map Char.toLower) ∈ words value := by
  have apart : ∀ word ∈ words false, word ∉ words true := by decide
  have yes : words true = yesWords := rfl
  have no : words false = noWords := rfl
  rw [switch?]
  generalize String.ofList ((trim text.toList).map Char.toLower) = word
  simp only [List.contains_iff_mem, ← yes, ← no]
  split
  · rename_i affirms
    cases value with
    | true => exact iff_of_true rfl affirms
    | false => exact iff_of_false (by simp) fun denies => apart word denies affirms
  · rename_i affirms_not
    split
    · rename_i denies
      cases value with
      | true => exact iff_of_false (by simp) affirms_not
      | false => exact iff_of_true rfl denies
    · rename_i denies_not
      cases value with
      | true => exact iff_of_false (by simp) affirms_not
      | false => exact iff_of_false (by simp) denies_not

/-- A truth value is read from the texts that state it, and from no others. -/
theorem switch?_eq_some_iff {text : String} {value : Bool} :
    switch? text = some value ↔ StatesSwitch text value := by
  rw [switch?_eq_some_iff_listed]
  constructor
  · intro listed
    exact ⟨_, padded_trim text.toList, listed⟩
  · rintro ⟨word, padded, listed⟩
    rw [trim_of_padded padded (solid_word listed)]
    exact listed

/-! ## Settings of an environment -/

/-- What a variable gives: its default where it is not set, and else what its text states. -/
def Gives {α : Type} (states : String → α → Prop) (default : α) : Option String → α → Prop
  | none, value => value = default
  | some text, value => states text value

/-- Settings that an environment gives: the defaults with exactly what it sets replaced. The limit is at least one
and the directory, which is taken as it stands, is not empty. -/
structure Granted (places : Places) (environment : Environment) (settings : Settings) : Prop where
  limit : Gives StatesLimit defaultMemoryLimit (environment "ARTIFACT_CACHE_MEMORY_LIMIT") settings.memoryLimit
  positive : 1 ≤ settings.memoryLimit
  directory : settings.directory =
    (environment "ARTIFACT_CACHE_DIR").getD (defaultAt places).directory
  nonempty : settings.directory ≠ ""
  switch : Gives StatesSwitch true (environment "ARTIFACT_CACHE_AUTO_HYDRATE") settings.autoHydrate

/-- An environment that states what it has to. -/
structure Stated (environment : Environment) : Prop where
  limit : ∀ text, environment "ARTIFACT_CACHE_MEMORY_LIMIT" = some text →
    ∃ limit, StatesLimit text limit ∧ 1 ≤ limit
  directory : environment "ARTIFACT_CACHE_DIR" ≠ some ""
  switch : ∀ text, environment "ARTIFACT_CACHE_AUTO_HYDRATE" = some text → ∃ value, StatesSwitch text value

/-- The fault that an environment is refused with: that of the first check that fails. -/
inductive Refused (environment : Environment) : Fault → Prop where
  | limit {text : String} (given : environment "ARTIFACT_CACHE_MEMORY_LIMIT" = some text)
      (unstated : ∀ limit, ¬ StatesLimit text limit) :
      Refused environment (.badSettings ("ARTIFACT_CACHE_MEMORY_LIMIT is not a number: " ++ text))
  | switch {limit : Nat} {text : String}
      (limit_given : Gives StatesLimit defaultMemoryLimit (environment "ARTIFACT_CACHE_MEMORY_LIMIT") limit)
      (given : environment "ARTIFACT_CACHE_AUTO_HYDRATE" = some text)
      (unstated : ∀ value, ¬ StatesSwitch text value) :
      Refused environment (.badSettings ("ARTIFACT_CACHE_AUTO_HYDRATE is not a boolean: " ++ text))
  | zero {value : Bool}
      (limit_given : Gives StatesLimit defaultMemoryLimit (environment "ARTIFACT_CACHE_MEMORY_LIMIT") 0)
      (switch_given : Gives StatesSwitch true (environment "ARTIFACT_CACHE_AUTO_HYDRATE") value) :
      Refused environment (.badSettings "memoryLimit must be at least 1")
  | directory {limit : Nat} {value : Bool}
      (limit_given : Gives StatesLimit defaultMemoryLimit (environment "ARTIFACT_CACHE_MEMORY_LIMIT") limit)
      (positive : 1 ≤ limit)
      (switch_given : Gives StatesSwitch true (environment "ARTIFACT_CACHE_AUTO_HYDRATE") value)
      (empty : environment "ARTIFACT_CACHE_DIR" = some "") :
      Refused environment (.badSettings "storageDirectory must not be empty")

section Variables

variable {α : Type} {read : String → Option α} {states : String → α → Prop} {complaint name : String}
  {environment : Environment} {default value : α} {fault : Fault}

/-- A variable is read as what it gives. -/
theorem override_eq_ok_iff (reads : ∀ text value, read text = some value ↔ states text value) :
    Settings.override read complaint name environment default = .ok value ↔
      Gives states default (environment name) value := by
  rw [Settings.override]
  cases environment name with
  | none => exact ⟨fun same => (Except.ok.inj same).symm, fun same => congrArg Except.ok same.symm⟩
  | some text =>
      rw [Gives, ← reads]
      cases found : read text with
      | none => simp [found]
      | some stated => simp [found]

/-- A variable that states nothing is refused with its text. -/
theorem override_eq_error_iff (reads : ∀ text value, read text = some value ↔ states text value) :
    Settings.override read complaint name environment default = .error fault ↔
      ∃ text, environment name = some text ∧ (∀ value, ¬ states text value) ∧
        fault = .badSettings (name ++ complaint ++ text) := by
  rw [Settings.override]
  cases environment name with
  | none => simp
  | some text =>
      simp only [← reads, Option.some.injEq, exists_eq_left']
      cases read text with
      | none => simp [eq_comm]
      | some stated => simp

end Variables

/-- Settings are valid if there is room for an entry, and a directory. -/
theorem validate_eq_ok_iff {settings : Settings} :
    settings.validate = .ok () ↔ 1 ≤ settings.memoryLimit ∧ settings.directory ≠ "" := by
  rw [validate]
  split
  · rename_i zero
    simp [zero]
  · rename_i positive
    split
    · rename_i empty
      simp [String.isEmpty_iff.1 empty]
    · rename_i named
      have named : settings.directory ≠ "" := fun empty => named (String.isEmpty_iff.2 empty)
      simp [named]
      omega

section Environments

variable {places : Places} {environment : Environment} {limit : Nat} {value : Bool} {fault : Fault}
  {settings : Settings}

/-- The directory that is used by default has a name. -/
theorem directory_defaultAt (places : Places) : (defaultAt places).directory ≠ "" := by
  have named : ∀ directory, Environment.inside directory "artifact-cache" ≠ "" := by
    intro directory
    rw [Environment.inside]
    split <;> simp
  exact named _

theorem directory_ne_empty (named : environment "ARTIFACT_CACHE_DIR" ≠ some "") :
    (environment "ARTIFACT_CACHE_DIR").getD (defaultAt places).directory ≠ "" := by
  cases given : environment "ARTIFACT_CACHE_DIR" with
  | none => exact directory_defaultAt places
  | some directory =>
      rintro rfl
      exact named given

/-- The limit that is read from an environment. -/
def limitOf (environment : Environment) : Except Fault Nat :=
  Settings.override memoryLimit? " is not a number: " "ARTIFACT_CACHE_MEMORY_LIMIT" environment
    defaultMemoryLimit

/-- The truth value that is read from an environment. -/
def switchOf (environment : Environment) : Except Fault Bool :=
  Settings.override switch? " is not a boolean: " "ARTIFACT_CACHE_AUTO_HYDRATE" environment true

/-- The limit is read first and the truth value second. What is read is checked last. -/
theorem ofEnvironmentAt_eq (places : Places) (environment : Environment) :
    ofEnvironmentAt places environment = do
      let limit ← limitOf environment
      let value ← switchOf environment
      let settings : Settings :=
        ⟨limit, (environment "ARTIFACT_CACHE_DIR").getD (defaultAt places).directory, value⟩
      settings.validate
      return settings := rfl

theorem limitOf_eq_ok_iff : limitOf environment = .ok limit ↔
    Gives StatesLimit defaultMemoryLimit (environment "ARTIFACT_CACHE_MEMORY_LIMIT") limit :=
  override_eq_ok_iff fun _ _ => memoryLimit?_eq_some_iff

theorem switchOf_eq_ok_iff : switchOf environment = .ok value ↔
    Gives StatesSwitch true (environment "ARTIFACT_CACHE_AUTO_HYDRATE") value :=
  override_eq_ok_iff fun _ _ => switch?_eq_some_iff

theorem limitOf_eq_error_iff : limitOf environment = .error fault ↔
    ∃ text, environment "ARTIFACT_CACHE_MEMORY_LIMIT" = some text ∧ (∀ limit, ¬ StatesLimit text limit) ∧
      fault = .badSettings ("ARTIFACT_CACHE_MEMORY_LIMIT is not a number: " ++ text) :=
  override_eq_error_iff fun _ _ => memoryLimit?_eq_some_iff

theorem switchOf_eq_error_iff : switchOf environment = .error fault ↔
    ∃ text, environment "ARTIFACT_CACHE_AUTO_HYDRATE" = some text ∧ (∀ value, ¬ StatesSwitch text value) ∧
      fault = .badSettings ("ARTIFACT_CACHE_AUTO_HYDRATE is not a boolean: " ++ text) :=
  override_eq_error_iff fun _ _ => switch?_eq_some_iff

/-- An environment states what it has to if it is granted settings. -/
theorem Granted.stated (granted : Granted places environment settings) : Stated environment where
  limit text given := by
    have limit := granted.limit
    rw [given] at limit
    exact ⟨_, limit, granted.positive⟩
  directory empty := by
    have directory := granted.directory
    rw [empty] at directory
    exact granted.nonempty directory
  switch text given := by
    have switch := granted.switch
    rw [given] at switch
    exact ⟨_, switch⟩

/-- What an environment states is granted. -/
theorem Stated.granted (stated : Stated environment) : ∃ settings, Granted places environment settings := by
  obtain ⟨limit, limit_given, positive⟩ : ∃ limit, Gives StatesLimit defaultMemoryLimit
      (environment "ARTIFACT_CACHE_MEMORY_LIMIT") limit ∧ 1 ≤ limit := by
    cases given : environment "ARTIFACT_CACHE_MEMORY_LIMIT" with
    | none => exact ⟨defaultMemoryLimit, rfl, by decide⟩
    | some text => exact stated.limit text given
  obtain ⟨value, switch_given⟩ : ∃ value, Gives StatesSwitch true
      (environment "ARTIFACT_CACHE_AUTO_HYDRATE") value := by
    cases given : environment "ARTIFACT_CACHE_AUTO_HYDRATE" with
    | none => exact ⟨true, rfl⟩
    | some text => exact stated.switch text given
  exact ⟨⟨limit, _, value⟩, limit_given, positive, rfl, directory_ne_empty stated.directory, switch_given⟩

/-- An environment gives the settings that it is granted. -/
theorem Granted.ofEnvironmentAt_eq_ok (granted : Granted places environment settings) :
    ofEnvironmentAt places environment = .ok settings := by
  have valid := validate_eq_ok_iff.2 ⟨granted.positive, granted.nonempty⟩
  obtain ⟨limit, directory, value⟩ := settings
  obtain rfl : directory = _ := granted.directory
  rw [ofEnvironmentAt_eq, limitOf_eq_ok_iff.2 granted.limit, switchOf_eq_ok_iff.2 granted.switch]
  simp only [bind, Except.bind, valid]
  rfl

/-- An environment is refused with the fault of the first check that fails. -/
theorem Refused.ofEnvironmentAt_eq_error (refused : Refused environment fault) :
    ofEnvironmentAt places environment = .error fault := by
  rw [ofEnvironmentAt_eq]
  cases refused with
  | limit given unstated =>
      rw [limitOf_eq_error_iff.2 ⟨_, given, unstated, rfl⟩]
      rfl
  | switch limit_given given unstated =>
      rw [limitOf_eq_ok_iff.2 limit_given, switchOf_eq_error_iff.2 ⟨_, given, unstated, rfl⟩]
      rfl
  | zero limit_given switch_given =>
      rw [limitOf_eq_ok_iff.2 limit_given, switchOf_eq_ok_iff.2 switch_given]
      rfl
  | @directory limit value limit_given positive switch_given empty =>
      rw [limitOf_eq_ok_iff.2 limit_given, switchOf_eq_ok_iff.2 switch_given, empty]
      simp only [bind, Except.bind, validate, Option.getD_some]
      rw [if_neg (by omega)]
      rfl

/-- Every environment is granted settings or is refused. -/
theorem granted_or_refused (places : Places) (environment : Environment) :
    (∃ settings, Granted places environment settings) ∨ ∃ fault, Refused environment fault := by
  cases limit_read : limitOf environment with
  | error fault =>
      obtain ⟨text, given, unstated, _⟩ := limitOf_eq_error_iff.1 limit_read
      exact .inr ⟨_, .limit given unstated⟩
  | ok limit =>
      have limit_given := limitOf_eq_ok_iff.1 limit_read
      cases switch_read : switchOf environment with
      | error fault =>
          obtain ⟨text, given, unstated, _⟩ := switchOf_eq_error_iff.1 switch_read
          exact .inr ⟨_, .switch limit_given given unstated⟩
      | ok value =>
          have switch_given := switchOf_eq_ok_iff.1 switch_read
          rcases Nat.eq_zero_or_pos limit with rfl | positive
          · exact .inr ⟨_, .zero limit_given switch_given⟩
          · by_cases empty : environment "ARTIFACT_CACHE_DIR" = some ""
            · exact .inr ⟨_, .directory limit_given positive switch_given empty⟩
            · exact .inl
                ⟨⟨limit, _, value⟩, limit_given, positive, rfl, directory_ne_empty empty, switch_given⟩

/-- Whatever directories its user has, an environment gives settings exactly if it states what it has to. It then
gives the defaults with what it states in their place, and they are valid; any other is refused by the first
check that fails. -/
theorem ofEnvironment_spec (places : Places) (environment : Environment) :
    (∀ settings, ofEnvironmentAt places environment = .ok settings ↔ Granted places environment settings) ∧
    ((∃ settings, ofEnvironmentAt places environment = .ok settings) ↔ Stated environment) ∧
    (∀ fault, ofEnvironmentAt places environment = .error fault ↔ Refused environment fault) ∧
    ∀ settings, ofEnvironmentAt places environment = .ok settings → settings.validate = .ok () := by
  have grants : ∀ settings, ofEnvironmentAt places environment = .ok settings ↔
      Granted places environment settings := by
    refine fun settings => ⟨fun given => ?_, fun granted => granted.ofEnvironmentAt_eq_ok⟩
    rcases granted_or_refused places environment with ⟨other, granted⟩ | ⟨fault, refused⟩
    · rw [granted.ofEnvironmentAt_eq_ok] at given
      exact Except.ok.inj given ▸ granted
    · rw [refused.ofEnvironmentAt_eq_error] at given
      cases given
  refine ⟨grants, ?_, fun fault => ⟨fun given => ?_, fun refused => refused.ofEnvironmentAt_eq_error⟩,
    fun settings given => ?_⟩
  · constructor
    · rintro ⟨settings, given⟩
      exact ((grants settings).1 given).stated
    · intro stated
      obtain ⟨settings, granted⟩ := stated.granted
      exact ⟨settings, granted.ofEnvironmentAt_eq_ok⟩
  · rcases granted_or_refused places environment with ⟨settings, granted⟩ | ⟨other, refused⟩
    · rw [granted.ofEnvironmentAt_eq_ok] at given
      cases given
    · rw [refused.ofEnvironmentAt_eq_error] at given
      exact Except.error.inj given ▸ refused
  · have granted := (grants settings).1 given
    exact validate_eq_ok_iff.2 ⟨granted.positive, granted.nonempty⟩

/-- A limit with a plus sign and zeros before it, and a word in letters of both cases, each in white space. -/
def spaced : Environment
  | "ARTIFACT_CACHE_MEMORY_LIMIT" => some "\t+007\u3000"
  | "ARTIFACT_CACHE_DIR" => some " d"
  | "ARTIFACT_CACHE_AUTO_HYDRATE" => some " oFF\n"
  | _ => none

/-- White space does not count around a limit or a word, and counts in a directory. -/
theorem ofEnvironment_spec_spaced :
    ofEnvironment spaced = .ok ⟨7, " d", false⟩ ∧ Granted spaced.places spaced ⟨7, " d", false⟩ ∧
      validate ⟨7, " d", false⟩ = .ok () := by
  have given : ofEnvironmentAt spaced.places spaced = .ok ⟨7, " d", false⟩ := by rfl
  obtain ⟨grants, _, _, valid⟩ := ofEnvironment_spec spaced.places spaced
  exact ⟨given, (grants _).1 given, valid _ given⟩

end Environments

end Settings

end TieredCache
