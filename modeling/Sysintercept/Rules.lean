import Sysintercept.Units

/-!
# Path replacement rules

The rules that a configuration valid under the schema lists, how the
constructors of `Replacement` and `Config` turn them into Boost expressions and
flags, and what `transform_path` makes of a path, against the meaning that the
schema's documentation gives the rules.
-/
namespace Sysintercept.Rules
open Sysintercept.Units

/-- A wide literal of the source. -/
def wide (s : String) : WString := s.toList.map (fun c => UInt16.ofNat c.toNat)

/-- What ends a computation early: the exceptions that a handler can tell apart,
    a failed assertion, and a use of memory that C++ leaves undefined. -/
inductive Stop
  | xml (what : String)
  | std (what : String)
  | other
  | assertion
  | fault
  deriving DecidableEq, Repr

/-! ## Configurations valid under the schema -/

inductive ReplacementFromFormat
  | perl | posix_extended | posix_basic | literal
  deriving DecidableEq, Repr

inductive ReplacementToFormat
  | sed | perl | boost_extended | literal
  deriving DecidableEq, Repr

structure xml.ReplacementFrom where
  text : WString
  format : ReplacementFromFormat
  deriving DecidableEq, Repr

structure xml.ReplacementTo where
  text : WString
  format : ReplacementToFormat
  deriving DecidableEq, Repr

structure xml.Replacement where
  from_ : xml.ReplacementFrom
  to_ : xml.ReplacementTo
  deriving DecidableEq, Repr

/-- `Path`: any number of replacement elements, in document order. -/
structure xml.Path where
  replacement : List xml.Replacement
  deriving DecidableEq, Repr

structure xml.Filesystem where
  path : xml.Path
  deriving DecidableEq, Repr

structure xml.Config where
  filesystem : xml.Filesystem
  deriving DecidableEq, Repr

/-! ## Boost -/

/-- The syntax flags of `boost::wregex` that the source names. -/
inductive Syntax
  | perl | extended | basic | literal
  deriving DecidableEq, Repr

/-- Boost's format flags: one for each replacement format of the schema. -/
inductive MatchFlag
  | format_sed | format_perl | format_all | format_literal
  deriving DecidableEq, Repr

/-- Boost.Regex as the rules use it: whether an expression compiles under a
    syntax, and the replace-all of an expression in a text. -/
structure Boost where
  compile : WString → Syntax → Except Stop Unit
  regex_replace : WString → WString → Syntax → WString → MatchFlag → Except Stop WString

/-- Replaces every occurrence of `text`, leftmost first; `skip` units of a found
    occurrence are still to be passed over. -/
def replaceLiteral (text replacement : WString) (skip : Nat) : WString → WString
  | [] => []
  | u :: rest =>
    match skip with
    | n + 1 => replaceLiteral text replacement n rest
    | 0 =>
      if text.isPrefixOf (u :: rest) then replacement ++ replaceLiteral text replacement (text.length - 1) rest
      else u :: replaceLiteral text replacement 0 rest

/-- Boost for rules that are literal on both sides. -/
def literalBoost : Boost where
  compile text type := if type = .literal ∧ text ≠ [] then .ok () else .error (.std "Empty expression")
  regex_replace str text type replacement flags :=
    if type = .literal ∧ flags = .format_literal then .ok (replaceLiteral text replacement 0 str)
    else .error (.std "not a literal rule")

structure Wregex where
  text : WString
  type : Syntax
  deriving DecidableEq, Repr

/-- The constructor of `boost::wregex`; an unset flag is an undefined value. -/
def wregex (boost : Boost) (text : WString) : Option Syntax → Except Stop Wregex
  | none => .error .fault
  | some type => do
    boost.compile text type
    return ⟨text, type⟩

/-- `assert(false)`, which a build with `NDEBUG` skips. -/
def assert_false (ndebug : Bool) : Except Stop Unit :=
  if ndebug then .ok () else .error .assertion

/-! ## Replacement and Config -/

/-- A rule; `match_flags` is none as long as nothing is stored in it. -/
structure Replacement where
  match_expression : Wregex
  replacement : WString
  match_flags : Option MatchFlag
  deriving DecidableEq, Repr

/-- The dispatch on the declared format of `from`. -/
def from_type (ndebug : Bool) (from_format : ReplacementFromFormat) : Except Stop (Option Syntax) :=
  if from_format = .perl then return some .perl
  else if from_format = .posix_extended then return some .extended
  else if from_format = .posix_basic then return some .basic
  else if from_format = .literal then return some .literal
  else do
    assert_false ndebug
    return none

/-- The dispatch on the declared format of `to`: the schema's boost-extended
    format has no branch. -/
def to_flags (ndebug : Bool) (to_format : ReplacementToFormat) : Except Stop (Option MatchFlag) :=
  if to_format = .sed then return some .format_sed
  else if to_format = .perl then return some .format_perl
  else if to_format = .literal then return some .format_literal
  else do
    assert_false ndebug
    return none

def Replacement.construct (boost : Boost) (ndebug : Bool) (r : xml.Replacement) : Except Stop Replacement := do
  let type ← from_type ndebug r.from_.format
  let match_expression ← wregex boost r.from_.text type
  let match_flags ← to_flags ndebug r.to_.format
  return { match_expression, replacement := r.to_.text, match_flags }

/-- An unset `match_flags` is an undefined value. -/
def Replacement.apply_to (boost : Boost) (r : Replacement) (str : WString) : Except Stop WString :=
  match r.match_flags with
  | none => .error .fault
  | some flags => boost.regex_replace str r.match_expression.text r.match_expression.type r.replacement flags

structure Config where
  path_replacement_rules : List Replacement
  deriving DecidableEq, Repr

def Config.construct (boost : Boost) (ndebug : Bool) (xml_config : xml.Config) : Except Stop Config := do
  let rules ← xml_config.filesystem.path.replacement.mapM (Replacement.construct boost ndebug)
  return ⟨rules⟩

def Config.transform_path (boost : Boost) (config : Config) (path : WString) : Except Stop WString :=
  config.path_replacement_rules.foldlM (fun retval r => r.apply_to boost retval) path

/-! ## The meaning that the schema documents -/

/-- The Boost syntax that each from format names. -/
def syntaxOf : ReplacementFromFormat → Syntax
  | .perl => .perl
  | .posix_extended => .extended
  | .posix_basic => .basic
  | .literal => .literal

/-- The Boost format that each to format names. -/
def flagOf : ReplacementToFormat → MatchFlag
  | .sed => .format_sed
  | .perl => .format_perl
  | .boost_extended => .format_all
  | .literal => .format_literal

/-- The rules in document order, each applied to the output of the one before:
    every match of its from text, under its own from format, is replaced by its
    to text, expanded under its own to format. -/
def reference (boost : Boost) (rules : List xml.Replacement) (path : WString) : Except Stop WString :=
  rules.foldlM (fun text r =>
    boost.regex_replace text r.from_.text (syntaxOf r.from_.format) r.to_.text (flagOf r.to_.format)) path

/-- The from text is a well-formed expression in its declared format. -/
def WellFormed (boost : Boost) (r : xml.Replacement) : Prop :=
  boost.compile r.from_.text (syntaxOf r.from_.format) = .ok ()

/-- The configuration loads into rules with every flag set, and these rules mean
    on every path what the schema documents. -/
def Implements (boost : Boost) (ndebug : Bool) (xml_config : xml.Config) : Prop :=
  ∃ config, Config.construct boost ndebug xml_config = .ok config ∧
    (∀ r ∈ config.path_replacement_rules, r.match_flags.isSome) ∧
    ∀ path, config.transform_path boost path = reference boost xml_config.filesystem.path.replacement path

/-- The rule that a replacement element stands for. -/
def ruleOf (r : xml.Replacement) : Replacement :=
  ⟨⟨r.from_.text, syntaxOf r.from_.format⟩, r.to_.text, some (flagOf r.to_.format)⟩

theorem syntaxOf_injective (a b : ReplacementFromFormat) (same : syntaxOf a = syntaxOf b) : a = b := by
  cases a <;> cases b <;> first | rfl | cases same

theorem flagOf_injective (a b : ReplacementToFormat) (same : flagOf a = flagOf b) : a = b := by
  cases a <;> cases b <;> first | rfl | cases same

/-- Every from format of the schema has its own branch. -/
theorem from_type_total_correct (ndebug : Bool) (from_format : ReplacementFromFormat) :
    from_type ndebug from_format = .ok (some (syntaxOf from_format)) := by
  cases from_format <;> rfl

/-- Every to format of the schema but one has its own branch. -/
theorem to_flags_supported (ndebug : Bool) {to_format : ReplacementToFormat} (supported : to_format ≠ .boost_extended) :
    to_flags ndebug to_format = .ok (some (flagOf to_format)) := by
  cases to_format with
  | boost_extended => exact absurd rfl supported
  | sed => rfl
  | perl => rfl
  | literal => rfl

/-- On the format without a branch the constructor fails its assertion or, where
    assertions are skipped, stores no flags. -/
theorem to_flags_unsupported (ndebug : Bool) :
    to_flags ndebug .boost_extended = if ndebug then .ok none else .error .assertion := by
  cases ndebug <;> rfl

theorem construct_supported (boost : Boost) (ndebug : Bool) {r : xml.Replacement} (wellFormed : WellFormed boost r)
    (supported : r.to_.format ≠ .boost_extended) : Replacement.construct boost ndebug r = .ok (ruleOf r) := by
  have compiled : boost.compile r.from_.text (syntaxOf r.from_.format) = .ok () := wellFormed
  unfold Replacement.construct
  rw [from_type_total_correct, to_flags_supported ndebug supported]
  simp only [wregex, compiled, ruleOf, bind, Except.bind, pure, Except.pure]

/-- A rule built from an element with the unsupported format has no flags. -/
theorem construct_unsupported (boost : Boost) (ndebug : Bool) {r : xml.Replacement}
    (unsupported : r.to_.format = .boost_extended) {rule : Replacement}
    (built : Replacement.construct boost ndebug r = .ok rule) : rule.match_flags = none := by
  unfold Replacement.construct at built
  rw [from_type_total_correct, unsupported, to_flags_unsupported] at built
  cases compiled : boost.compile r.from_.text (syntaxOf r.from_.format) with
  | error e => simp [wregex, compiled, bind, Except.bind] at built
  | ok _ =>
    cases ndebug with
    | false => simp [wregex, compiled, bind, Except.bind, pure, Except.pure] at built
    | true =>
      simp only [wregex, compiled, bind, Except.bind, pure, Except.pure, ↓reduceIte, Except.ok.injEq] at built
      rw [← built]

/-- Loading supported rules succeeds and yields the rule of each element. -/
theorem mapM_construct_supported (boost : Boost) (ndebug : Bool) (rules : List xml.Replacement)
    (wellFormed : ∀ r ∈ rules, WellFormed boost r) (supported : ∀ r ∈ rules, r.to_.format ≠ .boost_extended) :
    rules.mapM (Replacement.construct boost ndebug) = .ok (rules.map ruleOf) := by
  induction rules with
  | nil => rfl
  | cons r rest ih =>
    have head := construct_supported boost ndebug (wellFormed r (by simp)) (supported r (by simp))
    have tail := ih (fun r' member => wellFormed r' (by simp [member])) (fun r' member => supported r' (by simp [member]))
    rw [List.mapM_cons, head, tail]
    rfl

/-- Each element of a loaded configuration was built into one of its rules. -/
theorem mapM_construct_mem (boost : Boost) (ndebug : Bool) {rules : List xml.Replacement} {built : List Replacement}
    (loaded : rules.mapM (Replacement.construct boost ndebug) = .ok built) {r : xml.Replacement} (member : r ∈ rules) :
    ∃ rule ∈ built, Replacement.construct boost ndebug r = .ok rule := by
  induction rules generalizing built with
  | nil => simp at member
  | cons first rest ih =>
    rw [List.mapM_cons] at loaded
    cases head : Replacement.construct boost ndebug first with
    | error e => simp [head, bind, Except.bind] at loaded
    | ok rule =>
      cases tail : rest.mapM (Replacement.construct boost ndebug) with
      | error e => simp [head, tail, bind, Except.bind] at loaded
      | ok more =>
        simp only [head, tail, bind, Except.bind, pure, Except.pure, Except.ok.injEq] at loaded
        subst loaded
        rcases List.mem_cons.mp member with rfl | later
        · exact ⟨rule, by simp, head⟩
        · obtain ⟨rule', among, built'⟩ := ih tail later
          exact ⟨rule', by simp [among], built'⟩

/-- Rules with their flags set compute the documented meaning. -/
theorem transform_path_ruleOf (boost : Boost) (rules : List xml.Replacement) (path : WString) :
    Config.transform_path boost ⟨rules.map ruleOf⟩ path = reference boost rules path := by
  unfold Config.transform_path reference
  rw [List.foldlM_map]
  rfl

/-- A configuration with well-formed expressions is implemented as documented
    exactly when no rule declares the boost-extended replacement format. -/
theorem implements_schema_iff (boost : Boost) (ndebug : Bool) (xml_config : xml.Config)
    (wellFormed : ∀ r ∈ xml_config.filesystem.path.replacement, WellFormed boost r) :
    Implements boost ndebug xml_config ↔
      ∀ r ∈ xml_config.filesystem.path.replacement, r.to_.format ≠ .boost_extended := by
  constructor
  · rintro ⟨config, loaded, flagged, _⟩ r member unsupported
    unfold Config.construct at loaded
    cases built : xml_config.filesystem.path.replacement.mapM (Replacement.construct boost ndebug) with
    | error e => simp [built, bind, Except.bind] at loaded
    | ok rules =>
      simp only [built, bind, Except.bind, pure, Except.pure, Except.ok.injEq] at loaded
      subst loaded
      obtain ⟨rule, among, constructed⟩ := mapM_construct_mem boost ndebug built member
      have unset := construct_unsupported boost ndebug unsupported constructed
      have isSet := flagged rule among
      simp [unset] at isSet
  · intro supported
    refine ⟨⟨xml_config.filesystem.path.replacement.map ruleOf⟩, ?_, ?_, transform_path_ruleOf boost _⟩
    · unfold Config.construct
      rw [mapM_construct_supported boost ndebug _ wellFormed supported]
      rfl
    · intro rule among
      obtain ⟨r, _, rfl⟩ := List.mem_map.mp among
      rfl

/-- The rule of the haskell_pathrewrite test. -/
def haskell_rule : xml.Replacement := ⟨⟨wide "a.txt", .literal⟩, ⟨wide "b.txt", .literal⟩⟩

/-- A rule for the name that the one of the test makes. -/
def chained_rule : xml.Replacement := ⟨⟨wide "b.txt", .literal⟩, ⟨wide "c.txt", .literal⟩⟩

/-- Two rules whose order matters: in document order a.txt becomes c.txt, and that
    is what the configuration loaded from them makes of it. -/
theorem implements_schema_iff_chained :
    (Implements literalBoost false ⟨⟨⟨[haskell_rule, chained_rule]⟩⟩⟩ ↔
      ∀ r ∈ [haskell_rule, chained_rule], r.to_.format ≠ .boost_extended) ∧
    (∃ config, Config.construct literalBoost false ⟨⟨⟨[haskell_rule, chained_rule]⟩⟩⟩ = .ok config ∧
      config.transform_path literalBoost (wide "a.txt") = .ok (wide "c.txt")) ∧
    reference literalBoost [chained_rule, haskell_rule] (wide "a.txt") = .ok (wide "b.txt") := by
  have implements := implements_schema_iff literalBoost false ⟨⟨⟨[haskell_rule, chained_rule]⟩⟩⟩ (by
    intro r member
    simp only [List.mem_cons, List.not_mem_nil, or_false] at member
    rcases member with rfl | rfl <;> rfl)
  refine ⟨implements, ?_, by rfl⟩
  obtain ⟨config, loaded, _, same⟩ := implements.mpr (by decide)
  exact ⟨config, loaded, (same (wide "a.txt")).trans (by rfl)⟩

/-- The rule of the test with its replacement declared boost-extended, which the
    schema allows. -/
def extended_rule : xml.Replacement := ⟨⟨wide "a.txt", .literal⟩, ⟨wide "b.txt", .boost_extended⟩⟩

/-- The configuration with that one rule has a well-formed expression and does not load. -/
theorem boost_extended_not_implemented :
    (∀ r ∈ [extended_rule], WellFormed literalBoost r) ∧ ¬ Implements literalBoost false ⟨⟨⟨[extended_rule]⟩⟩⟩ := by
  refine ⟨fun r member => ?_, ?_⟩
  · obtain rfl := List.mem_singleton.mp member
    rfl
  · rintro ⟨config, loaded, _⟩
    have asserts : Config.construct literalBoost false ⟨⟨⟨[extended_rule]⟩⟩⟩ = .error .assertion := rfl
    rw [asserts] at loaded
    cases loaded

end Sysintercept.Rules
