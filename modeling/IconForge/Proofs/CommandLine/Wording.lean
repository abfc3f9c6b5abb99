import IconForge.CommandLine.Arguments
import Mathlib.Data.List.Basic
import Mathlib.Data.List.TakeWhile

set_option autoImplicit false

/-! # Wording of a command line

Whatever the program can be told, a command line can say, and the order of its words does not
matter. A word is an option with its value behind an equals sign, a flag in its long spelling, or a
cluster of letters (`Word`). Each word is read as one item (`classify_text`), taking that item sets
what the word says and nothing else (`takeItems_item`), and so taking several words is a fold over
them (`takeItems_words`). The fold is told apart by the words that occur in it, whatever their
order (`value_tell`, `flag_tell`).

The main statement is `parse_spelled`: words that spell arguments, in any order, with the input
behind the separator or, if it does not look like an option, anywhere among them, are read as those
arguments. -/

namespace IconForge.CommandLine

/-! ## Settings and flags -/

/-- The options with a value. -/
inductive Setting where
  | outputDirectory
  | report
  | config
deriving DecidableEq, Repr

/-- The flags that change a setting. -/
inductive Flag where
  | force
  | recursive
  | noCheck
  | verbose
deriving DecidableEq, Repr

/-- The letters that stand for a flag. -/
inductive Letter where
  | f
  | r
  | v
deriving DecidableEq, Repr

namespace Setting

def switch : Setting → Switch
  | .outputDirectory => .outputDirectory
  | .report => .report
  | .config => .config

def spelling : Setting → String
  | .outputDirectory => "--output-dir"
  | .report => "--report"
  | .config => "--config"

def all : List Setting :=
  [.outputDirectory, .report, .config]

theorem mem_all (setting : Setting) : setting ∈ all := by
  cases setting <;> decide

end Setting

namespace Flag

def switch : Flag → Switch
  | .force => .force
  | .recursive => .recursive
  | .noCheck => .noCheck
  | .verbose => .verbose

def spelling : Flag → String
  | .force => "--force"
  | .recursive => "--recursive"
  | .noCheck => "--no-check"
  | .verbose => "--verbose"

def all : List Flag :=
  [.force, .recursive, .noCheck, .verbose]

theorem mem_all (flag : Flag) : flag ∈ all := by
  cases flag <;> decide

end Flag

namespace Letter

def flag : Letter → Flag
  | .f => .force
  | .r => .recursive
  | .v => .verbose

def char : Letter → Char
  | .f => 'f'
  | .r => 'r'
  | .v => 'v'

end Letter

namespace Arguments

def value (arguments : Arguments) : Setting → OptionValue
  | .outputDirectory => arguments.outputDirectory
  | .report => arguments.report
  | .config => arguments.config

def flag (arguments : Arguments) : Flag → Bool
  | .force => arguments.force
  | .recursive => arguments.recursive
  | .noCheck => arguments.noCheck
  | .verbose => arguments.verbose

def withValue (arguments : Arguments) (setting : Setting) (text : String) : Arguments :=
  match setting with
  | .outputDirectory => { arguments with outputDirectory := .given text }
  | .report => { arguments with report := .given text }
  | .config => { arguments with config := .given text }

def withFlag (arguments : Arguments) (flag : Flag) : Arguments :=
  match flag with
  | .force => { arguments with force := true }
  | .recursive => { arguments with recursive := true }
  | .noCheck => { arguments with noCheck := true }
  | .verbose => { arguments with verbose := true }

variable (arguments : Arguments) (setting other : Setting) (flag next : Flag) (text : String)

@[simp] theorem value_withValue :
    (arguments.withValue setting text).value other =
      if other = setting then .given text else arguments.value other := by
  cases setting <;> cases other <;> rfl

@[simp] theorem flag_withValue :
    (arguments.withValue setting text).flag flag = arguments.flag flag := by
  cases setting <;> cases flag <;> rfl

@[simp] theorem value_withFlag :
    (arguments.withFlag flag).value setting = arguments.value setting := by
  cases flag <;> cases setting <;> rfl

@[simp] theorem flag_withFlag :
    (arguments.withFlag flag).flag next = (next == flag || arguments.flag next) := by
  cases flag <;> cases next <;> rfl

/-- Arguments are told apart by their input, the values of the options and the flags. -/
theorem eq_of_value_flag {first second : Arguments} (hinput : first.input = second.input)
    (hvalue : ∀ setting, first.value setting = second.value setting)
    (hflag : ∀ flag, first.flag flag = second.flag flag) : first = second := by
  obtain ⟨input, outputDirectory, report, config, force, recursive, noCheck, verbose⟩ := first
  obtain ⟨input', outputDirectory', report', config', force', recursive', noCheck', verbose'⟩ :=
    second
  obtain rfl : input = input' := hinput
  obtain rfl : outputDirectory = outputDirectory' := hvalue .outputDirectory
  obtain rfl : report = report' := hvalue .report
  obtain rfl : config = config' := hvalue .config
  obtain rfl : force = force' := hflag .force
  obtain rfl : recursive = recursive' := hflag .recursive
  obtain rfl : noCheck = noCheck' := hflag .noCheck
  obtain rfl : verbose = verbose' := hflag .verbose
  rfl

/-- Arguments whose options have no value, or one that is not the separator. -/
def Sayable (arguments : Arguments) : Prop :=
  ∀ setting, arguments.value setting ≠ .blank ∧ arguments.value setting ≠ .given "--"

end Arguments

/-! ## Words -/

/-- A word of a command line. -/
inductive Word where
  /-- An option and its value, with an equals sign between them. -/
  | valued (setting : Setting) (text : String)
  /-- A flag in its long spelling. -/
  | long (flag : Flag)
  /-- A hyphen with one or more letters behind it. -/
  | cluster (first : Letter) (others : List Letter)
deriving DecidableEq, Repr

namespace Word

def text : Word → String
  | .valued setting text => setting.spelling ++ "=" ++ text
  | .long flag => flag.spelling
  | .cluster first others => String.ofList ('-' :: first.char :: others.map Letter.char)

def flags : Word → List Flag
  | .valued _ _ => []
  | .long flag => [flag]
  | .cluster first others => (first :: others).map Letter.flag

def item : Word → Item
  | .valued setting text => .option setting.switch false (some text.toList)
  | .long flag => .option flag.switch false none
  | .cluster first [] => .option first.flag.switch true none
  | .cluster first (next :: others) =>
    .option first.flag.switch true (some ((next :: others).map Letter.char))

/-- A word whose value is not the separator. -/
def Plain : Word → Prop
  | .valued _ text => text ≠ "--"
  | _ => True

/-- What a word changes. -/
def tell (arguments : Arguments) : Word → Arguments
  | .valued setting text => arguments.withValue setting text
  | .long flag => arguments.withFlag flag
  | .cluster first others =>
    ((first :: others).map Letter.flag).foldl Arguments.withFlag arguments

end Word

/-- Words that say what arguments hold: each option with the value that it has, and each flag that
is set, once or several times. -/
structure Spells (words : List Word) (arguments : Arguments) : Prop where
  setting (setting : Setting) (text : String) :
    Word.valued setting text ∈ words ↔ arguments.value setting = .given text
  flag (flag : Flag) : (∃ word ∈ words, flag ∈ word.flags) ↔ arguments.flag flag = true

/-! ## Reading one word -/

/-- No spelling has an equals sign in it, and one of more than a hyphen and a letter begins with two
hyphens. -/
theorem spelling_of_mem_table :
    ∀ entry ∈ Switch.table, '=' ∉ entry.1 ∧ (entry.1.length ≤ 2 ∨ entry.1[1]? = some '-') := by
  decide

theorem ofSpelling?_eq_none_of_mem {cs : List Char} (h : '=' ∈ cs) :
    Switch.ofSpelling? cs = none := by
  cases hswitch : Switch.ofSpelling? cs with
  | none => rfl
  | some switch =>
      exact absurd h (spelling_of_mem_table _ (KeyedList.mem_of_get? hswitch)).1

theorem ofSpelling?_eq_none_of_letters {first next : Char} {others : List Char}
    (h : first ≠ '-') : Switch.ofSpelling? ('-' :: first :: next :: others) = none := by
  cases hswitch : Switch.ofSpelling? ('-' :: first :: next :: others) with
  | none => rfl
  | some switch =>
      rcases (spelling_of_mem_table _ (KeyedList.mem_of_get? hswitch)).2 with hlength | hsecond
      · simp at hlength
      · exact absurd (Option.some.inj hsecond) h

theorem splitAtEquals?_append {stem : List Char} (value : List Char) (h : '=' ∉ stem) :
    splitAtEquals? (stem ++ '=' :: value) = some (stem, value) := by
  have hstem : ∀ c ∈ stem, decide (c ≠ '=') = true := by
    intro c hc
    exact decide_eq_true (fun heq => h (heq ▸ hc))
  rw [splitAtEquals?, List.dropWhile_append_of_pos hstem, List.takeWhile_append_of_pos hstem]
  simp

theorem splitAtEquals?_eq_none {cs : List Char} (h : '=' ∉ cs) : splitAtEquals? cs = none := by
  have hall : ∀ c ∈ cs, decide (c ≠ '=') = true := by
    intro c hc
    exact decide_eq_true (fun heq => h (heq ▸ hc))
  rw [splitAtEquals?, List.dropWhile_eq_nil_iff.2 hall]

/-- A text that spells out an option is read as that option, whatever stands behind the equals
sign. -/
theorem classify_of_exactOption? {argument : String} {item : Item}
    (h : exactOption? argument.toList = some item)
    (hhead : ∃ second rest, argument.toList = '-' :: second :: rest) :
    classify argument = .ok item := by
  obtain ⟨second, rest, hcs⟩ := hhead
  rw [hcs] at h
  rw [classify, hcs]
  simp only [h]

theorem classify_valued (setting : Setting) (text : String) :
    classify (Word.valued setting text).text = .ok (Word.valued setting text).item := by
  have htext : (Word.valued setting text).text.toList =
      setting.spelling.toList ++ '=' :: text.toList := by
    simp [Word.text]
  refine classify_of_exactOption? ?_ ?_
  · have hstem : '=' ∉ setting.spelling.toList := by cases setting <;> decide
    have hswitch : Switch.ofSpelling? setting.spelling.toList = some setting.switch := by
      cases setting <;> decide
    have hshort : isShort setting.spelling.toList = false := by cases setting <;> decide
    rw [htext, exactOption?, ofSpelling?_eq_none_of_mem (by simp),
      splitAtEquals?_append text.toList hstem]
    simp only [hswitch, Option.map_some, hshort, Word.item]
  · rw [htext]
    cases setting <;> exact ⟨_, _, rfl⟩

/-- The words that hold no text are read as their items; two hyphens alone are no word. -/
theorem classify_closed :
    (∀ flag ∈ Flag.all, classify (Word.long flag).text = .ok (Word.long flag).item) ∧
      (∀ letter ∈ [Letter.f, .r, .v],
        classify (Word.cluster letter []).text = .ok (Word.cluster letter []).item) ∧
      (classify "--").isOk = false := by
  decide

theorem classify_long (flag : Flag) :
    classify (Word.long flag).text = .ok (Word.long flag).item :=
  classify_closed.1 flag (Flag.mem_all flag)

/-- A cluster of several letters is nothing that an option spells; it is cut behind its first
letter. -/
theorem classify_cluster (first : Letter) (others : List Letter) :
    classify (Word.cluster first others).text = .ok (Word.cluster first others).item := by
  cases others with
  | nil => exact classify_closed.2.1 first (by cases first <;> decide)
  | cons next others =>
      have htext : (Word.cluster first (next :: others)).text.toList =
          '-' :: first.char :: next.char :: others.map Letter.char := by
        simp [Word.text]
      have hletter : ∀ letter : Letter, letter.char ≠ '-' ∧ letter.char ≠ '=' := by
        intro letter
        cases letter <;> decide
      have hequals : '=' ∉ '-' :: first.char :: next.char :: others.map Letter.char := by
        simp only [List.mem_cons, List.mem_map, not_or, not_exists, not_and]
        exact ⟨by decide, (hletter first).2.symm, (hletter next).2.symm,
          fun letter _ => (hletter letter).2⟩
      -- No option is spelled by one dash and two letters, and no value is given with an equals
      -- sign.
      have hexact : exactOption? ('-' :: first.char :: next.char :: others.map Letter.char) =
          none := by
        rw [exactOption?, ofSpelling?_eq_none_of_letters (hletter first).1,
          splitAtEquals?_eq_none hequals]
      have hshort : isShort ('-' :: first.char :: next.char :: others.map Letter.char) = true := by
        cases first <;> rfl
      have hcandidates :
          shortCandidates ('-' :: first.char :: next.char :: others.map Letter.char) =
            [(['-', first.char], (Word.cluster first (next :: others)).item)] := by
        cases first <;> rfl
      rw [classify, htext]
      simp only [hexact, hshort, if_true, hcandidates]

/-- Every word is read as its item. -/
theorem classify_text (word : Word) : classify word.text = .ok word.item := by
  cases word with
  | valued setting text => exact classify_valued setting text
  | long flag => exact classify_long flag
  | cluster first others => exact classify_cluster first others

theorem text_ne_separator (word : Word) : word.text ≠ "--" := by
  intro heq
  have hword := classify_text word
  have hseparator := classify_closed.2.2
  rw [heq] at hword
  rw [hword] at hseparator
  cases hseparator

theorem classify_operand {argument : String} (h : argument.toList.head? ≠ some '-') :
    classify argument = .ok (.operand argument) := by
  rw [classify]
  split
  · next hcs => rw [hcs] at h; exact absurd rfl h
  · rfl

/-! ## Reading several words -/

theorem classifyAll_cons {argument : String} {item : Item} {rest : List String}
    {items : List Item} (hne : argument ≠ "--") (hitem : classify argument = .ok item)
    (hrest : classifyAll rest = .ok items) :
    classifyAll (argument :: rest) = .ok (item :: items) := by
  rw [classifyAll.eq_3 argument rest (fun heq => hne heq), hitem]
  simp only [hrest]

theorem classifyAll_words (words : List Word) {rest : List String} {items : List Item}
    (hrest : classifyAll rest = .ok items) :
    classifyAll (words.map Word.text ++ rest) = .ok (words.map Word.item ++ items) := by
  induction words with
  | nil => exact hrest
  | cons word words ih => exact classifyAll_cons (text_ne_separator word) (classify_text word) ih

/-! ## Taking one word -/

theorem setFlags_flags (progress : Progress) (flags : List Flag) :
    progress.setFlags (flags.map Flag.switch) =
      .ok { progress with arguments := flags.foldl Arguments.withFlag progress.arguments } := by
  induction flags generalizing progress with
  | nil => rfl
  | cons flag flags ih =>
      have hflag : progress.setFlag flag.switch =
          .ok { progress with arguments := progress.arguments.withFlag flag } := by
        cases flag <;> rfl
      rw [Progress.setFlags, List.map_cons, List.foldlM_cons, hflag]
      exact ih _

theorem setValue_setting (progress : Progress) (setting : Setting) {text : String}
    (h : text ≠ "--") :
    progress.setValue setting.switch text =
      { progress with arguments := progress.arguments.withValue setting text } := by
  cases setting <;> simp only [Setting.switch, Progress.setValue, h, if_false] <;> rfl

/-- All letters of a cluster are flags, and so it ends without a value. -/
theorem readCluster_letters (first next : Letter) (others : List Letter) :
    readCluster first.flag.switch true ((next :: others).map Letter.char) =
      .ok ⟨((first :: next :: others).map Letter.flag).map Flag.switch, none⟩ := by
  have hvalue : ∀ letter : Letter, letter.flag.switch.takesValue = false := by
    intro letter
    cases letter <;> rfl
  have hswitch : ∀ letter : Letter,
      Switch.ofSpelling? ['-', letter.char] = some letter.flag.switch := by
    intro letter
    cases letter <;> decide
  induction others generalizing first next with
  | nil =>
      rw [List.map_cons, readCluster]
      simp [hvalue, hswitch]
  | cons last others ih =>
      rw [List.map_cons, readCluster]
      simp only [hvalue, hswitch, Bool.false_eq_true, if_false, if_true, ih next last]
      rfl

/-- One step: taking the item of a word changes the settings as the word tells and nothing else. -/
theorem takeItems_item (progress : Progress) {word : Word} (h : word.Plain) (rest : List Item) :
    takeItems progress (word.item :: rest) =
      takeItems { progress with arguments := word.tell progress.arguments } rest := by
  -- In each case the word is first read as its flags and its value, which are then set.
  cases word with
  | valued setting text =>
      have hcluster : clusterOf setting.switch false (some text.toList) =
          .ok ⟨[], some (setting.switch, some text)⟩ := by
        have hvalue : setting.switch.takesValue = true := by cases setting <;> rfl
        rw [clusterOf, readCluster.eq_def, hvalue, if_pos rfl, String.ofList_toList]
      rw [Word.item, takeItems, hcluster]
      simp only [Progress.setFlags, List.foldlM_nil]
      exact congrArg (takeItems · rest) (setValue_setting progress setting h)
  | long flag =>
      have hcluster : clusterOf flag.switch false none = .ok ⟨[flag].map Flag.switch, none⟩ := by
        cases flag <;> rfl
      rw [Word.item, takeItems, hcluster]
      simp only [setFlags_flags]
      rfl
  | cluster first others =>
      have hcluster : ∃ attached, (Word.cluster first others).item =
          .option first.flag.switch true attached ∧
            clusterOf first.flag.switch true attached =
              .ok ⟨((first :: others).map Letter.flag).map Flag.switch, none⟩ := by
        cases others with
        | nil => exact ⟨none, rfl, by cases first <;> rfl⟩
        | cons next others => exact ⟨_, rfl, readCluster_letters first next others⟩
      obtain ⟨attached, hitem, hcluster⟩ := hcluster
      rw [hitem, takeItems, hcluster]
      simp only [setFlags_flags]
      rfl

/-- A run: words are taken one after the other. -/
theorem takeItems_words (progress : Progress) {words : List Word}
    (h : ∀ word ∈ words, word.Plain) (rest : List Item) :
    takeItems progress (words.map Word.item ++ rest) =
      takeItems { progress with arguments := words.foldl Word.tell progress.arguments } rest := by
  induction words generalizing progress with
  | nil => rfl
  | cons word words ih =>
      rw [List.map_cons, List.cons_append, takeItems_item progress (h word List.mem_cons_self)]
      exact ih _ (fun later hlater => h later (List.mem_cons_of_mem _ hlater))

/-! ## What words tell together -/

@[simp] theorem flag_foldl_withFlag (arguments : Arguments) (flags : List Flag) (flag : Flag) :
    (flags.foldl Arguments.withFlag arguments).flag flag =
      (decide (flag ∈ flags) || arguments.flag flag) := by
  induction flags generalizing arguments with
  | nil => simp
  | cons first flags ih =>
      rw [List.foldl_cons, ih, Arguments.flag_withFlag, Bool.eq_iff_iff]
      simp only [Bool.or_eq_true, decide_eq_true_iff, beq_iff_eq, List.mem_cons]
      exact or_left_comm.trans or_assoc.symm

@[simp] theorem value_foldl_withFlag (arguments : Arguments) (flags : List Flag)
    (setting : Setting) :
    (flags.foldl Arguments.withFlag arguments).value setting = arguments.value setting := by
  induction flags generalizing arguments with
  | nil => rfl
  | cons first flags ih => rw [List.foldl_cons, ih, Arguments.value_withFlag]

theorem flag_tell (arguments : Arguments) (word : Word) (flag : Flag) :
    (word.tell arguments).flag flag = (decide (flag ∈ word.flags) || arguments.flag flag) := by
  cases word with
  | valued setting text => simp [Word.tell, Word.flags]
  | long next => simp [Word.tell, Word.flags, Bool.beq_eq_decide_eq]
  | cluster first others => rw [Word.tell, flag_foldl_withFlag]; rfl

/-- A flag is set when one of the words sets it. -/
theorem flag_words (words : List Word) (arguments : Arguments) (flag : Flag) :
    (words.foldl Word.tell arguments).flag flag = true ↔
      (∃ word ∈ words, flag ∈ word.flags) ∨ arguments.flag flag = true := by
  induction words generalizing arguments with
  | nil => simp
  | cons word words ih =>
      rw [List.foldl_cons, ih, flag_tell, Bool.or_eq_true, decide_eq_true_iff,
        List.exists_mem_cons_iff]
      exact or_left_comm.trans or_assoc.symm

theorem value_tell_of_ne {word : Word} {setting : Setting}
    (h : ∀ text, word ≠ .valued setting text) (arguments : Arguments) :
    (word.tell arguments).value setting = arguments.value setting := by
  cases word with
  | valued other text =>
      have hne : setting ≠ other := fun heq => h text (heq ▸ rfl)
      rw [Word.tell, Arguments.value_withValue, if_neg hne]
  | long flag => exact Arguments.value_withFlag arguments setting flag
  | cluster first others => exact value_foldl_withFlag arguments _ setting

/-- An option whose value all words agree on has that value, if one of them gives it or it was
there before. -/
theorem value_words {words : List Word} {setting : Setting} {value : OptionValue}
    (hagree : ∀ text, Word.valued setting text ∈ words → value = .given text)
    {arguments : Arguments}
    (hstart : arguments.value setting = value ∨ ∃ text, Word.valued setting text ∈ words) :
    (words.foldl Word.tell arguments).value setting = value := by
  induction words generalizing arguments with
  | nil =>
      rcases hstart with h | ⟨text, hmem⟩
      · exact h
      · cases hmem
  | cons word words ih =>
      refine ih (fun text hmem => hagree text (List.mem_cons_of_mem _ hmem)) ?_
      by_cases hword : ∃ text, word = .valued setting text
      · obtain ⟨text, rfl⟩ := hword
        refine Or.inl ?_
        rw [hagree text List.mem_cons_self, Word.tell, Arguments.value_withValue, if_pos rfl]
      · have hne : ∀ text, word ≠ .valued setting text := fun text heq => hword ⟨text, heq⟩
        rw [value_tell_of_ne hne]
        refine hstart.imp_right ?_
        rintro ⟨text, hmem⟩
        exact ⟨text, (List.mem_cons.1 hmem).resolve_left (hne text).symm⟩

/-- Words that spell arguments say all of them but the input. -/
theorem Spells.words_start {words : List Word} {arguments : Arguments}
    (h : Spells words arguments) (hsayable : arguments.Sayable) :
    { words.foldl Word.tell Progress.start.arguments with input := arguments.input } =
      arguments := by
  refine Arguments.eq_of_value_flag rfl (fun setting => ?_) (fun flag => ?_)
  · have hvalue : (words.foldl Word.tell Progress.start.arguments).value setting =
        arguments.value setting := by
      refine value_words (fun text hmem => (h.setting setting text).1 hmem) ?_
      cases hcase : arguments.value setting with
      | absent => exact Or.inl (by cases setting <;> rfl)
      | blank => exact absurd hcase (hsayable setting).1
      | given text => exact Or.inr ⟨text, (h.setting setting text).2 hcase⟩
    rw [← hvalue]
    cases setting <;> rfl
  · have hflag : (words.foldl Word.tell Progress.start.arguments).flag flag =
        arguments.flag flag := by
      have hstart : Progress.start.arguments.flag flag = false := by cases flag <;> rfl
      rw [Bool.eq_iff_iff, flag_words, h.flag, hstart]
      simp
    rw [← hflag]
    cases flag <;> rfl

/-- The words of settings, each said once and every flag in its long spelling. -/
def Arguments.words (arguments : Arguments) : List Word :=
  (Setting.all.filterMap fun setting =>
      (arguments.value setting).text?.map (Word.valued setting)) ++
    (Flag.all.filter arguments.flag).map Word.long

theorem spells_words (arguments : Arguments) : Spells arguments.words arguments where
  setting setting text := by
    have htext : ∀ value : OptionValue, value.text? = some text ↔ value = .given text := by
      intro value
      cases value <;> simp [OptionValue.text?]
    simp [Arguments.words, htext, Setting.mem_all]
  flag flag := by
    simp [Arguments.words, or_and_right, exists_or, Word.flags, Flag.mem_all]

/-! ## The command line -/

theorem Spells.plain {words : List Word} {arguments : Arguments} (h : Spells words arguments)
    (hsayable : arguments.Sayable) : ∀ word ∈ words, word.Plain := by
  intro word hmem
  cases word with
  | valued setting text =>
      rintro rfl
      exact (hsayable setting).2 ((h.setting setting "--").1 hmem)
  | long flag => trivial
  | cluster first others => trivial

theorem Spells.perm {words order : List Word} {arguments : Arguments}
    (h : Spells words arguments) (hperm : order.Perm words) : Spells order arguments where
  setting setting text := hperm.mem_iff.trans (h.setting setting text)
  flag flag := by
    rw [← h.flag]
    exact exists_congr fun word => and_congr_left' hperm.mem_iff

theorem parse_of_takeItems {argv : List String} {items : List Item} {arguments : Arguments}
    {input : String} (hitems : classifyAll argv = .ok items)
    (htake : takeItems .start items = .ok ⟨some input, arguments, []⟩) :
    parse argv = .ok { arguments with input := input } := by
  rw [parse, hitems]
  simp only [htake]
  rfl

/-- Behind the separator the input may be any text. -/
theorem parse_separated {words : List Word} (hplain : ∀ word ∈ words, word.Plain)
    (input : String) :
    parse (words.map Word.text ++ ["--", input]) =
      .ok { words.foldl Word.tell Progress.start.arguments with input := input } := by
  have hitems : classifyAll ["--", input] = .ok [.separator, .operand input] := rfl
  refine parse_of_takeItems (classifyAll_words words hitems) ?_
  rw [takeItems_words .start hplain]
  rfl

/-- Among the words the input is the one argument without a hyphen in front. -/
theorem parse_among {front behind : List Word} (hfront : ∀ word ∈ front, word.Plain)
    (hbehind : ∀ word ∈ behind, word.Plain) {input : String}
    (hinput : input.toList.head? ≠ some '-') :
    parse (front.map Word.text ++ input :: behind.map Word.text) =
      .ok { (front ++ behind).foldl Word.tell Progress.start.arguments with input := input } := by
  have hne : input ≠ "--" := fun heq => hinput (heq ▸ rfl)
  have hrest : classifyAll (behind.map Word.text) = .ok (behind.map Word.item) := by
    have hend : classifyAll [] = .ok [] := rfl
    have hwords := classifyAll_words behind hend
    rwa [List.append_nil, List.append_nil] at hwords
  -- Words are no separator, and so the input does not end the reading.
  have hoperand : ∀ progress : Progress,
      takeItems progress (.operand input :: behind.map Word.item) =
        takeItems (progress.takeOperand input) (behind.map Word.item) := by
    intro progress
    refine takeItems.eq_3 progress input (behind.map Word.item) (fun operands _ heq => ?_)
    obtain ⟨word, -, hword⟩ := List.mem_map.1 (heq ▸ List.mem_cons_self : _ ∈ behind.map Word.item)
    cases word with
    | valued setting text => cases hword
    | long flag => cases hword
    | cluster first others => cases others <;> cases hword
  refine parse_of_takeItems
    (classifyAll_words front (classifyAll_cons hne (classify_operand hinput) hrest)) ?_
  rw [takeItems_words .start hfront, hoperand]
  have hwords := takeItems_words
    (Progress.takeOperand
      { Progress.start with
        arguments := front.foldl Word.tell Progress.start.arguments } input) hbehind []
  rw [List.append_nil] at hwords
  rw [hwords, List.foldl_append]
  rfl

/-- Everything that the program can be told can be said, and is understood in every order of the
words: behind the separator the input is any text, and an input without a hyphen in front may stand
anywhere among the words. -/
theorem parse_spelled {arguments : Arguments} (hsayable : arguments.Sayable) :
    (∃ words, Spells words arguments) ∧
      ∀ words, Spells words arguments → ∀ order : List Word, order.Perm words →
        parse (order.map Word.text ++ ["--", arguments.input]) = .ok arguments ∧
        (arguments.input.toList.head? ≠ some '-' →
          ∀ front behind, order = front ++ behind →
            parse (front.map Word.text ++ arguments.input :: behind.map Word.text) =
              .ok arguments) := by
  refine ⟨⟨arguments.words, spells_words arguments⟩, ?_⟩
  intro words hwords order hperm
  have horder := hwords.perm hperm
  have hplain := horder.plain hsayable
  refine ⟨?_, ?_⟩
  · rw [parse_separated hplain, horder.words_start hsayable]
  · rintro hinput front behind rfl
    rw [parse_among (fun word h => hplain word (List.mem_append_left _ h))
      (fun word h => hplain word (List.mem_append_right _ h)) hinput,
      horder.words_start hsayable]

/-- Arguments with an equals sign and a separator inside of their values. -/
def iconArguments : Arguments :=
  ⟨"star.svg", .given "a=b", .absent, .given "-- c.json", true, false, false, true⟩

def iconWords : List Word :=
  [.cluster .v [.f], .valued .config "-- c.json", .valued .outputDirectory "a=b", .long .verbose]

theorem spells_iconWords : Spells iconWords iconArguments where
  setting setting text := by
    cases setting <;>
      simp [iconWords, iconArguments, Arguments.value, eq_comm (a := text)]
  flag flag := by
    cases flag <;> simp [iconWords, iconArguments, Arguments.flag, Word.flags, Letter.flag]

theorem parse_spelled_icon :
    parse ["-vf", "--config=-- c.json", "--output-dir=a=b", "--verbose", "--", "star.svg"] =
        .ok iconArguments ∧
      parse ["--verbose", "-vf", "star.svg", "--output-dir=a=b", "--config=-- c.json"] =
        .ok iconArguments := by
  have hsayable : iconArguments.Sayable := by
    intro setting
    cases setting <;> simp [iconArguments, Arguments.value]
  have hspelled := (parse_spelled hsayable).2 iconWords spells_iconWords
  refine ⟨?_, ?_⟩
  · have htexts : iconWords.map Word.text ++ ["--", iconArguments.input] =
        ["-vf", "--config=-- c.json", "--output-dir=a=b", "--verbose", "--", "star.svg"] := by
      decide
    rw [← htexts]
    exact (hspelled iconWords (.refl _)).1
  · have htexts : [Word.long .verbose, .cluster .v [.f]].map Word.text ++
        iconArguments.input ::
          [Word.valued .outputDirectory "a=b", .valued .config "-- c.json"].map Word.text =
        ["--verbose", "-vf", "star.svg", "--output-dir=a=b", "--config=-- c.json"] := by
      decide
    rw [← htexts]
    exact (hspelled [.long .verbose, .cluster .v [.f], .valued .outputDirectory "a=b",
        .valued .config "-- c.json"] (by decide)).2 (by decide) _ _ rfl

end IconForge.CommandLine
