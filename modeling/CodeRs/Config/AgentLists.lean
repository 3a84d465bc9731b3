import CodeRs.Lib.Lists
import CodeRs.Lib.Toml

/-!
# The lists of agents and of subagent commands

`upsert_agent_config`, `upsert_subagent_command` and `delete_subagent_command`
of `core/src/config_edit.rs`.  Each one edits a list that is written as an
array of tables, and takes a list that is written inline for a missing one.  A
file is the document that is read from it.
-/

namespace CodeRs.Config

open Toml

/-! ## Entries -/

/-- An array of strings. -/
def texts (values : List Text) : Item := .array (values.map .string)

def asArrayOfTables : Item → Option (List Entries)
  | .arrayOfTables tables => some tables
  | _ => none

/-- The entry has the given name, up to the case of ASCII letters. -/
def sameName (name : Text) (entry : Entries) : Bool :=
  match lookup "name".toList entry with
  | some (.string given) => given.toAsciiLowercase == name.toAsciiLowercase
  | _ => false

/-- A value that is given is set. -/
def put (key : Text) (value : Option Item) (entry : Entries) : Entries :=
  match value with
  | some value => insert key value entry
  | none => entry

/-- A text that is given is set, or the key is removed if there is nothing but
space in it. -/
def putText (key : Text) (value : Option Text) (entry : Entries) : Entries :=
  match value with
  | some text =>
      if text.trim = [] then erase key entry
        else insert key (.string text) entry
  | none => entry

/-- A text that has more than space in it. -/
def notBlank (value : Option Text) : Option Item :=
  (value.filter fun text => text.trim ≠ []).map .string

/-- A text is set if there is one, and the key is removed otherwise. -/
def putOrErase (key : Text) (value : Option Text) (entry : Entries) : Entries :=
  match value with
  | some text => insert key (.string text) entry
  | none => erase key entry

/-! ## Agents -/

/-- The arguments of `upsert_agent_config` other than the name. -/
structure AgentSettings where
  enabled : Option Bool
  args : Option (List Text)
  argsReadOnly : Option (List Text)
  argsWrite : Option (List Text)
  instructions : Option Text
  description : Option Text
  command : Option Text

/-- An agent that is there: the selected fields are updated, and the name is
not one of them. -/
def updatedAgent (settings : AgentSettings) (entry : Entries) : Entries :=
  let entry := put "enabled".toList (settings.enabled.map .boolean) entry
  let entry := put "args".toList (settings.args.map texts) entry
  let entry :=
    put "args-read-only".toList (settings.argsReadOnly.map texts) entry
  let entry := put "args-write".toList (settings.argsWrite.map texts) entry
  let entry := putText "instructions".toList settings.instructions entry
  let entry := putText "description".toList settings.description entry
  putText "command".toList settings.command entry

def newAgent (name : Text) (settings : AgentSettings) : Entries :=
  let entry := insert "name".toList (.string name) []
  let entry := put "enabled".toList (settings.enabled.map .boolean) entry
  let entry := put "args".toList (settings.args.map texts) entry
  let entry :=
    put "args-read-only".toList (settings.argsReadOnly.map texts) entry
  let entry := put "args-write".toList (settings.argsWrite.map texts) entry
  let entry := put "instructions".toList (notBlank settings.instructions) entry
  let entry := put "description".toList (notBlank settings.description) entry
  put "command".toList (notBlank settings.command) entry

def appendAgentEntry (doc : Entries) (name : Text) (settings : AgentSettings) :
    Entries :=
  let arr := ((lookup "agents".toList doc).bind asArrayOfTables).getD []
  insert "agents".toList (.arrayOfTables (arr ++ [newAgent name settings])) doc

/-- `upsert_agent_config`: the file that is written. -/
def upsertAgentConfig (file : Option Entries) (name : Text)
    (settings : AgentSettings) : Entries :=
  let doc := file.getD []
  match lookup "agents".toList doc with
  | some (.arrayOfTables arr) =>
      let newArr := arr.map fun entry =>
        if sameName name entry then updatedAgent settings entry else entry
      let doc := insert "agents".toList (.arrayOfTables newArr) doc
      if arr.any (sameName name) then doc
        else appendAgentEntry doc name settings
  | some _ => -- not an array, treated as missing
      appendAgentEntry doc name settings
  | none => appendAgentEntry doc name settings

/-! ## Commands -/

structure SubagentCommandConfig where
  name : Text
  readOnly : Bool
  agents : List Text
  orchestratorInstructions : Option Text
  agentInstructions : Option Text

def SubagentCommandConfig.updated (cmd : SubagentCommandConfig)
    (entry : Entries) : Entries :=
  let entry := insert "name".toList (.string cmd.name) entry
  let entry := insert "read-only".toList (.boolean cmd.readOnly) entry
  let entry := insert "agents".toList (texts cmd.agents) entry
  let entry :=
    putOrErase "orchestrator-instructions".toList
      cmd.orchestratorInstructions entry
  putOrErase "agent-instructions".toList cmd.agentInstructions entry

def SubagentCommandConfig.entry (cmd : SubagentCommandConfig) : Entries :=
  let entry := insert "name".toList (.string cmd.name) []
  let entry := insert "read-only".toList (.boolean cmd.readOnly) entry
  let entry := insert "agents".toList (texts cmd.agents) entry
  let entry :=
    put "orchestrator-instructions".toList
      (cmd.orchestratorInstructions.map .string) entry
  put "agent-instructions".toList (cmd.agentInstructions.map .string) entry

/-- `upsert_subagent_command`: the file that is written.  Where `subagents` is
no table of either kind, the assignment to a key of it panics. -/
def upsertSubagentCommand (file : Option Entries)
    (cmd : SubagentCommandConfig) :
    Option Entries :=
  let doc := file.getD []
  let doc :=
    if (lookup "subagents".toList doc).isSome then doc
    else insert "subagents".toList (.table false []) doc
  let arr :=
    (((lookup "subagents".toList doc).bind (Item.child "commands".toList)).bind
      asArrayOfTables).getD []
  let newCommands := upsertBy (sameName cmd.name) cmd.updated cmd.entry arr
  match lookup "subagents".toList doc with
  | some (.table implicit entries) =>
      let entries :=
        insert "commands".toList (.arrayOfTables newCommands) entries
      some (insert "subagents".toList (.table implicit entries) doc)
  | some (.inlineTable entries) =>
      -- An array of tables in an inline table is left out of the file.
      some
        (insert "subagents".toList
          (.inlineTable (erase "commands".toList entries)) doc)
  | _ => none

/-- `delete_subagent_command`: the file after it, and whether an entry was
removed.  An array of tables without entries stands for none. -/
def deleteSubagentCommand (file : Option Entries) (name : Text) :
    Option Entries × Bool :=
  match file with
  | none => (none, false)
  | some doc =>
      match lookup "subagents".toList doc with
      | some (.table implicit entries) =>
          match lookup "commands".toList entries with
          | some (.arrayOfTables arr) =>
              let retained := arr.filter fun entry => !sameName name entry
              if retained.length ≠ arr.length then
                let entries :=
                  insert "commands".toList (.arrayOfTables retained) entries
                (some (insert "subagents".toList (.table implicit entries) doc),
                  true)
              else (some doc, false)
          | _ => (some doc, false)
      | _ => (some doc, false)

/-! ## The lists of a document -/

/-- The entries of a list that is absent or an inline array of tables. -/
def inlineEntries : Option Item → Option (List Entries)
  | none => some []
  | some (.array items) => items.mapM fun
      | .inlineTable entries => some entries
      | _ => none
  | some _ => none

/-- The entries of a list in either form. -/
def listEntries : Option Item → Option (List Entries)
  | some (.arrayOfTables tables) => some tables
  | item => inlineEntries item

/-- `agents`, if it is a list of tables. -/
def agentList (doc : Entries) : Option (List Entries) :=
  listEntries (lookup "agents".toList doc)

/-- `subagents.commands`, if it is a list of tables.  In an inline table it is
inline. -/
def commandList (doc : Entries) : Option (List Entries) :=
  match lookup "subagents".toList doc with
  | none => some []
  | some (.table _ entries) => listEntries (lookup "commands".toList entries)
  | some (.inlineTable entries) =>
      inlineEntries (lookup "commands".toList entries)
  | some _ => none

/-- A document whose two lists are lists of tables. -/
structure ConfigDocument where
  doc : Entries
  agents : List Entries
  commands : List Entries
  agents_eq : agentList doc = some agents
  commands_eq : commandList doc = some commands

/-- An edit of a list: the entries with another name are as they were and in
their order, the entries with the name are as many as they should be, and the
other top-level keys are as they were. -/
def ListEdited (key : Text) (list : Entries → Option (List Entries))
    (name : Text)
    (counts : ℕ → ℕ → Prop) (doc after : Entries) : Prop :=
  (∃ before later, list doc = some before ∧ list after = some later ∧
    later.filter (fun entry => !sameName name entry) =
      before.filter (fun entry => !sameName name entry) ∧
    counts (before.countP (sameName name)) (later.countP (sameName name))) ∧
  ∀ other, other ≠ key → lookup other after = lookup other doc

/-- The entries with the name around an upsert. -/
def OneAfter (before later : ℕ) : Prop := before ≤ 1 → later = 1

/-- The entries with the name around a deletion. -/
def NoneAfter (_before later : ℕ) : Prop := later = 0

/-! ## Names -/

section Names

variable {name key : Text} {entry : Entries}

theorem sameName_of_lookup {other : Entries}
    (h : lookup "name".toList other = lookup "name".toList entry) :
    sameName name other = sameName name entry := by
  rw [sameName, h, sameName]

theorem sameName_self (h : lookup "name".toList entry = some (.string name)) :
    sameName name entry = true := by
  rw [sameName, h]
  exact beq_self_eq_true _

theorem lookup_put {value : Option Item} {other : Text} (h : other ≠ key) :
    lookup other (put key value entry) = lookup other entry := by
  cases value with
  | none => rfl
  | some value => exact lookup_insert_of_ne h

theorem lookup_putText {value : Option Text} {other : Text} (h : other ≠ key) :
    lookup other (putText key value entry) = lookup other entry := by
  cases value with
  | none => rfl
  | some text =>
      rw [putText]
      split
      · exact lookup_erase_of_ne h
      · exact lookup_insert_of_ne h

theorem lookup_putOrErase {value : Option Text} {other : Text}
    (h : other ≠ key) :
    lookup other (putOrErase key value entry) = lookup other entry := by
  cases value with
  | none => exact lookup_erase_of_ne h
  | some text => exact lookup_insert_of_ne h

theorem lookup_name_updatedAgent (settings : AgentSettings) :
    lookup "name".toList (updatedAgent settings entry) =
      lookup "name".toList entry := by
  rw [updatedAgent, lookup_putText (by decide), lookup_putText (by decide),
    lookup_putText (by decide), lookup_put (by decide), lookup_put (by decide),
    lookup_put (by decide), lookup_put (by decide)]

theorem lookup_name_newAgent (settings : AgentSettings) :
    lookup "name".toList (newAgent name settings) = some (.string name) := by
  rw [newAgent, lookup_put (by decide), lookup_put (by decide),
    lookup_put (by decide),
    lookup_put (by decide), lookup_put (by decide), lookup_put (by decide),
    lookup_put (by decide), lookup_insert_self]

theorem lookup_name_updated (cmd : SubagentCommandConfig) :
    lookup "name".toList (cmd.updated entry) = some (.string cmd.name) := by
  rw [SubagentCommandConfig.updated, lookup_putOrErase (by decide),
    lookup_putOrErase (by decide), lookup_insert_of_ne (by decide),
    lookup_insert_of_ne (by decide), lookup_insert_self]

theorem lookup_name_entry (cmd : SubagentCommandConfig) :
    lookup "name".toList cmd.entry = some (.string cmd.name) := by
  rw [SubagentCommandConfig.entry, lookup_put (by decide),
    lookup_put (by decide),
    lookup_insert_of_ne (by decide), lookup_insert_of_ne (by decide),
    lookup_insert_self]

end Names

/-! ## Lists in the two forms -/

theorem asArrayOfTables_eq_none {item : Item}
    (h : ∀ tables, item ≠ .arrayOfTables tables) :
    asArrayOfTables item = none := by
  cases item with
  | arrayOfTables tables => exact absurd rfl (h tables)
  | array items => rfl
  | string text => rfl
  | boolean bool => rfl
  | other raw => rfl
  | inlineTable entries => rfl
  | table implicit entries => rfl

section Lists

variable {key name : Text} {list : Entries → Option (List Entries)}
    {counts : ℕ → ℕ → Prop}
  {doc after : Entries} {before later : List Entries}

theorem listEdited_iff (key : Text) (hbefore : list doc = some before)
    (hlater : list after = some later)
    (hrest : ∀ other, other ≠ key → lookup other after = lookup other doc) :
    ListEdited key list name counts doc after ↔
      later.filter (fun entry => !sameName name entry) =
          before.filter (fun entry => !sameName name entry) ∧
        counts (before.countP (sameName name))
          (later.countP (sameName name)) := by
  constructor
  · rintro ⟨⟨before', later', hbefore', hlater', hfilter, hcount⟩, -⟩
    obtain rfl : before = before' :=
      Option.some.inj (hbefore.symm.trans hbefore')
    obtain rfl : later = later' := Option.some.inj (hlater.symm.trans hlater')
    exact ⟨hfilter, hcount⟩
  · rintro ⟨hfilter, hcount⟩
    exact ⟨⟨before, later, hbefore, hlater, hfilter, hcount⟩, hrest⟩

theorem filter_other_eq_nil_iff :
    before.filter (fun entry => !sameName name entry) = [] ↔
      ∀ entry ∈ before, sameName name entry = true := by
  rw [List.filter_eq_nil_iff]
  constructor
  · intro h entry hmem
    simpa using h entry hmem
  · intro h entry hmem
    rw [h entry hmem]
    exact Bool.false_ne_true

/-- The tables that the editors see: all of an array of tables, and none of an
inline array. -/
theorem tables_of_listEntries {item : Option Item}
    (h : listEntries item = some before) :
    (¬ ∃ items, item = some (.array items)) ∧
      (item.bind asArrayOfTables).getD [] = before ∨
      (∃ items, item = some (.array items)) ∧
        (item.bind asArrayOfTables).getD [] = [] := by
  cases item with
  | none =>
      cases h
      exact Or.inl ⟨fun ⟨_, heq⟩ => (nomatch heq), rfl⟩
  | some item =>
      cases item with
      | arrayOfTables tables =>
          cases h
          exact Or.inl ⟨fun ⟨_, heq⟩ => (nomatch heq), rfl⟩
      | array items => exact Or.inr ⟨⟨items, rfl⟩, rfl⟩
      | string text => cases h
      | boolean bool => cases h
      | other raw => cases h
      | inlineTable entries => cases h
      | table implicit entries => cases h

/-- An upsert is right unless it loses entries of an inline array. -/
theorem listEdited_upsertBy (key : Text) {update : Entries → Entries}
    {new : Entries} {tables : List Entries}
    {isInline : Prop} (hbefore : list doc = some before)
    (hlater : list after = some (upsertBy (sameName name) update new tables))
    (hrest : ∀ other, other ≠ key → lookup other after = lookup other doc)
    (hupdate : ∀ entry, sameName name entry → sameName name (update entry))
    (hnew : sameName name new)
    (htables : ¬ isInline ∧ tables = before ∨ isInline ∧ tables = []) :
    ListEdited key list name OneAfter doc after ↔
      (isInline → ∀ entry ∈ before, sameName name entry = true) := by
  rw [listEdited_iff key hbefore hlater hrest, filter_upsertBy hupdate hnew]
  rcases htables with ⟨hplain, rfl⟩ | ⟨hinline, rfl⟩
  · constructor
    · intro _ hinline
      exact absurd hinline hplain
    · intro _
      exact ⟨rfl, countP_upsertBy hupdate hnew⟩
  · rw [List.filter_nil, eq_comm, filter_other_eq_nil_iff]
    constructor
    · rintro ⟨hsame, -⟩ -
      exact hsame
    · intro hsame
      refine ⟨hsame hinline, fun _ => countP_upsertBy hupdate hnew ?_⟩
      exact Nat.zero_le 1

end Lists

/-! ## The agents -/

/-- `agents` is an inline array. -/
def AgentsInline (doc : Entries) : Prop :=
  ∃ items, lookup "agents".toList doc = some (.array items)

theorem lookup_appendAgentEntry {doc : Entries} {name : Text}
    {settings : AgentSettings} :
    lookup "agents".toList (appendAgentEntry doc name settings) =
      some (.arrayOfTables
      (((lookup "agents".toList doc).bind asArrayOfTables).getD [] ++
        [newAgent name settings])) :=
  lookup_insert_self

theorem lookup_upsertAgentConfig (doc : Entries) (name : Text)
    (settings : AgentSettings) :
    lookup "agents".toList (upsertAgentConfig (some doc) name settings) =
      some (.arrayOfTables
      (upsertBy (sameName name) (updatedAgent settings) (newAgent name settings)
        (((lookup "agents".toList doc).bind asArrayOfTables).getD []))) := by
  rw [upsertAgentConfig, Option.getD_some]
  split
  next arr hlookup =>
    simp only [hlookup, Option.bind_some, asArrayOfTables,
      Option.getD_some, upsertBy]
    split
    · exact lookup_insert_self
    next hnone =>
      have hsame : arr.map (fun entry =>
          if sameName name entry then updatedAgent settings entry
            else entry) = arr := by
        refine (List.map_congr_left fun entry hmem => if_neg
          fun hsame => ?_).trans (List.map_id arr)
        exact hnone (List.any_eq_true.2 ⟨entry, hmem, hsame⟩)
      rw [lookup_appendAgentEntry, lookup_insert_self, hsame, Option.bind_some,
        asArrayOfTables,
        Option.getD_some]
  next item hno hlookup =>
    rw [lookup_appendAgentEntry, hlookup, Option.bind_some,
      asArrayOfTables_eq_none hno]
    rfl
  next hlookup =>
    rw [lookup_appendAgentEntry, hlookup]
    rfl

/-- The other top-level keys are not touched. -/
theorem lookup_upsertAgentConfig_of_ne {doc : Entries} {name other : Text}
    {settings : AgentSettings} (h : other ≠ "agents".toList) :
    lookup other (upsertAgentConfig (some doc) name settings) =
      lookup other doc := by
  have happend : ∀ doc,
      lookup other (appendAgentEntry doc name settings) = lookup other doc :=
    fun doc => lookup_insert_of_ne h
  rw [upsertAgentConfig, Option.getD_some]
  split
  · simp only
    split
    · exact lookup_insert_of_ne h
    · rw [happend, lookup_insert_of_ne h]
  · exact happend doc
  · exact happend doc

/-- An upsert of an agent is right unless the list is an inline array that has
an entry with another name. -/
theorem listEdited_upsertAgentConfig (config : ConfigDocument) (name : Text)
    (settings : AgentSettings) :
    ListEdited "agents".toList agentList name OneAfter config.doc
        (upsertAgentConfig (some config.doc) name settings) ↔
      (AgentsInline config.doc → ∀ entry ∈ config.agents,
        sameName name entry = true) := by
  have hlater : agentList (upsertAgentConfig (some config.doc) name settings) =
      some
        (upsertBy (sameName name) (updatedAgent settings)
          (newAgent name settings)
        (((lookup "agents".toList config.doc).bind asArrayOfTables).getD
          [])) := by
    rw [agentList, lookup_upsertAgentConfig]
    rfl
  refine listEdited_upsertBy _ config.agents_eq hlater ?_ ?_ ?_
    (tables_of_listEntries config.agents_eq)
  · intro other hne
    exact lookup_upsertAgentConfig_of_ne hne
  · intro entry hsame
    rw [sameName_of_lookup (lookup_name_updatedAgent settings)]
    exact hsame
  · exact sameName_self (lookup_name_newAgent settings)

/-! ## The commands -/

/-- `subagents.commands` is an inline array in a table. -/
def CommandsInline (doc : Entries) : Prop :=
  ∃ implicit entries items,
    lookup "subagents".toList doc = some (.table implicit entries) ∧
    lookup "commands".toList entries = some (.array items)

/-- `subagents` is an inline table. -/
def SubagentsInline (doc : Entries) : Prop :=
  ∃ entries, lookup "subagents".toList doc = some (.inlineTable entries)

section Commands

variable {doc entries : Entries} {implicit : Bool} {cmd : SubagentCommandConfig}

theorem upsertSubagentCommand_table
    (hlookup : lookup "subagents".toList doc = some (.table implicit entries)) :
    upsertSubagentCommand (some doc) cmd =
      some (insert "subagents".toList (.table implicit
      (insert "commands".toList
        (.arrayOfTables (upsertBy (sameName cmd.name) cmd.updated cmd.entry
        (((lookup "commands".toList entries).bind asArrayOfTables).getD [])))
        entries)) doc) := by
  simp only [upsertSubagentCommand, Option.getD_some, hlookup,
    Option.isSome_some, if_true]
  rfl

theorem upsertSubagentCommand_missing
    (hlookup : lookup "subagents".toList doc = none) :
    upsertSubagentCommand (some doc) cmd =
      upsertSubagentCommand
        (some (insert "subagents".toList (.table false []) doc)) cmd := by
  rw [upsertSubagentCommand_table lookup_insert_self]
  simp only [upsertSubagentCommand, Option.getD_some, hlookup,
    Option.isSome_none,
    Bool.false_eq_true, if_false, lookup_insert_self]
  rfl

theorem upsertSubagentCommand_inline
    (hlookup : lookup "subagents".toList doc = some (.inlineTable entries)) :
    upsertSubagentCommand (some doc) cmd = some (insert "subagents".toList
      (.inlineTable (erase "commands".toList entries)) doc) := by
  simp only [upsertSubagentCommand, Option.getD_some, hlookup,
    Option.isSome_some, if_true]

theorem commandList_table
    (hlookup : lookup "subagents".toList doc = some (.table implicit entries)) :
    commandList doc = listEntries (lookup "commands".toList entries) := by
  rw [commandList, hlookup]

theorem commandList_inline
    (hlookup : lookup "subagents".toList doc = some (.inlineTable entries)) :
    commandList doc = inlineEntries (lookup "commands".toList entries) := by
  rw [commandList, hlookup]

theorem subagents_cases {before : List Entries}
    (h : commandList doc = some before) :
    (lookup "subagents".toList doc = none ∧ before = []) ∨
      (∃ implicit entries,
        lookup "subagents".toList doc = some (.table implicit entries) ∧
        listEntries (lookup "commands".toList entries) = some before) ∨
      ∃ entries, lookup "subagents".toList doc =
        some (.inlineTable entries) := by
  rw [commandList] at h
  split at h
  next hlookup => exact Or.inl ⟨hlookup, (Option.some.inj h).symm⟩
  next implicit entries hlookup =>
    exact Or.inr (Or.inl ⟨implicit, entries, hlookup, h⟩)
  next entries hlookup => exact Or.inr (Or.inr ⟨entries, hlookup⟩)
  next => cases h

theorem commandsInline_iff
    (hlookup : lookup "subagents".toList doc = some (.table implicit entries)) :
    CommandsInline doc ↔
      ∃ items, lookup "commands".toList entries = some (.array items) := by
  rw [CommandsInline, hlookup]
  constructor
  · rintro ⟨_, _, items, heq, hitems⟩
    cases heq
    exact ⟨items, hitems⟩
  · rintro ⟨items, hitems⟩
    exact ⟨implicit, entries, items, rfl, hitems⟩

theorem not_subagentsInline
    (hlookup : lookup "subagents".toList doc = some (.table implicit entries)) :
    ¬ SubagentsInline doc := by
  rintro ⟨inline, heq⟩
  rw [hlookup] at heq
  cases heq

/-- Every command with the name is one after an update, and a new command is
one. -/
theorem sameName_updated (entry : Entries) :
    sameName cmd.name (cmd.updated entry) = true :=
  sameName_self (lookup_name_updated cmd)

theorem sameName_entry : sameName cmd.name cmd.entry = true :=
  sameName_self (lookup_name_entry cmd)

theorem listEdited_upsert_table {before : List Entries}
    (hbefore : commandList doc = some before)
    {filled : Entries} (hrest : ∀ other, other ≠ "subagents".toList →
      lookup other filled = lookup other doc)
    (hlookup : lookup "subagents".toList filled =
      some (.table implicit entries))
    (hentries : listEntries (lookup "commands".toList entries) = some before) :
    (∃ after, upsertSubagentCommand (some filled) cmd = some after ∧
        ListEdited "subagents".toList commandList cmd.name OneAfter doc after) ↔
      ((∃ items, lookup "commands".toList entries = some (.array items)) →
        ∀ entry ∈ before, sameName cmd.name entry = true) := by
  have hafter :=
    @upsertSubagentCommand_table filled entries implicit cmd hlookup
  set commands :=
    Item.arrayOfTables (upsertBy (sameName cmd.name) cmd.updated cmd.entry
      (((lookup "commands".toList entries).bind asArrayOfTables).getD
        [])) with hcommands
  have hlater : commandList (insert "subagents".toList
      (.table implicit (insert "commands".toList commands entries)) filled) =
      some (upsertBy (sameName cmd.name) cmd.updated cmd.entry
        (((lookup "commands".toList entries).bind asArrayOfTables).getD
          [])) := by
    rw [commandList_table lookup_insert_self, lookup_insert_self, hcommands]
    rfl
  have hedited := listEdited_upsertBy "subagents".toList hbefore hlater
    (fun other hne => (lookup_insert_of_ne hne).trans (hrest other hne))
    (fun entry _ => sameName_updated entry) sameName_entry
    (tables_of_listEntries hentries)
  rw [← hedited, hafter]
  constructor
  · rintro ⟨after, heq, hright⟩
    cases heq
    exact hright
  · intro hright
    exact ⟨_, rfl, hright⟩

end Commands

/-- An upsert of a command is right unless it loses entries of an inline array,
or its own entry with an inline table. -/
theorem listEdited_upsertSubagentCommand (config : ConfigDocument)
    (cmd : SubagentCommandConfig) :
    (∃ after, upsertSubagentCommand (some config.doc) cmd = some after ∧
        ListEdited "subagents".toList commandList cmd.name OneAfter
          config.doc after) ↔
      (CommandsInline config.doc → ∀ entry ∈ config.commands,
        sameName cmd.name entry = true) ∧
        (SubagentsInline config.doc → 2 ≤ config.commands.length ∧
          ∀ entry ∈ config.commands, sameName cmd.name entry = true) := by
  have hlist := config.commands_eq
  rcases subagents_cases hlist with
    ⟨hlookup, hnil⟩ | ⟨implicit, entries, hlookup, hentries⟩ |
    ⟨entries, hlookup⟩
  · have hnone : ∀ entry ∈ config.commands, sameName cmd.name entry = true := by
      rw [hnil]
      intro entry hmem
      cases hmem
    rw [upsertSubagentCommand_missing hlookup, listEdited_upsert_table hlist
      (fun other hne => lookup_insert_of_ne hne) lookup_insert_self
      (by rw [lookup_nil, hnil]; rfl)]
    refine ⟨fun _ => ⟨fun _ => hnone, ?_⟩, fun _ _ => hnone⟩
    rintro ⟨entries, heq⟩
    rw [hlookup] at heq
    cases heq
  · rw [listEdited_upsert_table hlist (fun other _ => rfl) hlookup hentries,
      ← commandsInline_iff hlookup]
    constructor
    · intro h
      exact ⟨h, fun hinline => absurd hinline (not_subagentsInline hlookup)⟩
    · rintro ⟨h, -⟩
      exact h
  · have hlater : commandList (insert "subagents".toList
        (.inlineTable (erase "commands".toList entries)) config.doc) =
        some [] := by
      rw [commandList_inline lookup_insert_self, lookup_erase_self]
      rfl
    have hedited :=
      @listEdited_iff cmd.name commandList OneAfter _ _ _ _ "subagents".toList
        hlist hlater fun other hne => lookup_insert_of_ne hne
    rw [List.filter_nil, eq_comm, filter_other_eq_nil_iff,
      List.countP_nil] at hedited
    rw [upsertSubagentCommand_inline hlookup]
    constructor
    · rintro ⟨after, heq, hright⟩
      cases heq
      obtain ⟨hsame, hcount⟩ := hedited.1 hright
      refine ⟨fun _ => hsame, fun _ => ⟨?_, hsame⟩⟩
      -- With at most one entry before there should be one after.
      by_contra hfew
      rw [List.countP_eq_length.2 hsame] at hcount
      exact Nat.zero_ne_one (hcount (by omega))
    · rintro ⟨-, hright⟩
      obtain ⟨htwo, hsame⟩ := hright ⟨entries, hlookup⟩
      refine ⟨_, rfl, hedited.2 ⟨hsame, fun hone => ?_⟩⟩
      rw [List.countP_eq_length.2 hsame] at hone
      exact absurd htwo (by omega)

section Deletion

variable {doc entries : Entries} {implicit : Bool} {name : Text}
    {before : List Entries}

/-- A document without an array of tables stays. -/
theorem deleteSubagentCommand_unchanged
    (h : ∀ implicit entries,
      lookup "subagents".toList doc = some (.table implicit entries) →
      ∀ arr, lookup "commands".toList entries ≠ some (.arrayOfTables arr)) :
    deleteSubagentCommand (some doc) name = (some doc, false) := by
  rw [deleteSubagentCommand]
  split
  next implicit entries hlookup =>
    split
    next arr hcommands =>
      exact absurd hcommands (h implicit entries hlookup arr)
    · rfl
  · rfl

theorem deleteSubagentCommand_arrayOfTables {arr : List Entries}
    (hlookup : lookup "subagents".toList doc = some (.table implicit entries))
    (hcommands : lookup "commands".toList entries = some (.arrayOfTables arr)) :
    ∃ after, (deleteSubagentCommand (some doc) name).1 = some after ∧
      commandList after = some (arr.filter fun entry => !sameName name entry) ∧
      ∀ other, other ≠ "subagents".toList →
      lookup other after = lookup other doc := by
  rw [deleteSubagentCommand, hlookup]
  simp only [hcommands]
  split
  · refine ⟨_, rfl, ?_, fun other hne => lookup_insert_of_ne hne⟩
    rw [commandList_table lookup_insert_self, lookup_insert_self]
    rfl
  next hlength =>
    refine ⟨doc, rfl, ?_, fun other _ => rfl⟩
    have hall : arr.filter (fun entry => !sameName name entry) = arr := by
      rw [List.filter_eq_self, ← List.length_filter_eq_length_iff]
      exact not_not.1 hlength
    rw [commandList_table hlookup, hcommands, hall]
    rfl

/-- A document that stays is right if the name is not in it. -/
theorem listEdited_unchanged (key : Text)
    {list : Entries → Option (List Entries)}
    (hbefore : list doc = some before) :
    ListEdited key list name NoneAfter doc doc ↔
      ∀ entry ∈ before, sameName name entry = false := by
  rw [listEdited_iff key hbefore hbefore fun other _ => rfl, NoneAfter,
    List.countP_eq_zero]
  constructor
  · rintro ⟨-, hnone⟩ entry hmem
    simpa using hnone entry hmem
  · intro hnone
    refine ⟨rfl, fun entry hmem => ?_⟩
    rw [hnone entry hmem]
    exact Bool.false_ne_true

end Deletion

/-- The document has an array of tables of commands. -/
def CommandTables (doc : Entries) (arr : List Entries) : Prop :=
  ∃ implicit entries,
    lookup "subagents".toList doc = some (.table implicit entries) ∧
    lookup "commands".toList entries = some (.arrayOfTables arr)

/-- A deletion from an array of tables is right, and no such array is inline. -/
theorem deleted_of_commandTables {config : ConfigDocument} {arr : List Entries}
    (h : CommandTables config.doc arr) (name : Text) :
    (∃ after, (deleteSubagentCommand (some config.doc) name).1 = some after ∧
      ListEdited "subagents".toList commandList name NoneAfter
        config.doc after) ∧
      ¬ (CommandsInline config.doc ∨ SubagentsInline config.doc) := by
  obtain ⟨implicit, entries, hlookup, hcommands⟩ := h
  have hlist := config.commands_eq
  have harr : config.commands = arr := by
    rw [commandList_table hlookup, hcommands] at hlist
    exact (Option.some.inj hlist).symm
  constructor
  · obtain ⟨after, hafter, hlater, hrest⟩ :=
      @deleteSubagentCommand_arrayOfTables config.doc entries implicit name arr
        hlookup hcommands
    refine ⟨after, hafter, (listEdited_iff _ hlist hlater hrest).2 ⟨?_, ?_⟩⟩
    · rw [harr, List.filter_filter]
      simp only [Bool.and_self]
    · rw [NoneAfter, List.countP_eq_zero]
      intro entry hmem hsame
      have hother := (List.mem_filter.1 hmem).2
      rw [hsame] at hother
      cases hother
  · rintro (hinline | hinline)
    · obtain ⟨items, hitems⟩ := (commandsInline_iff hlookup).1 hinline
      rw [hcommands] at hitems
      cases hitems
    · exact not_subagentsInline hlookup hinline

theorem commands_of_not_commandTables {config : ConfigDocument}
    (h : ¬ ∃ arr, CommandTables config.doc arr) :
    config.commands = [] ∨ CommandsInline config.doc ∨
      SubagentsInline config.doc := by
  rcases subagents_cases config.commands_eq with ⟨-, hnil⟩ |
    ⟨implicit, entries, hlookup, hentries⟩ | ⟨entries, hlookup⟩
  · exact .inl hnil
  · rcases tables_of_listEntries hentries with ⟨-, hbefore⟩ | ⟨hitems, -⟩
    · have hnone :
          (lookup "commands".toList entries).bind asArrayOfTables = none := by
        cases hcommands : lookup "commands".toList entries with
        | none => rfl
        | some item =>
            refine asArrayOfTables_eq_none fun arr harr => h ?_
            exact ⟨arr, implicit, entries, hlookup, harr ▸ hcommands⟩
      rw [hnone, Option.getD_none] at hbefore
      exact .inl hbefore.symm
    · exact .inr (.inl ((commandsInline_iff hlookup).2 hitems))
  · exact .inr (.inr ⟨entries, hlookup⟩)

/-- A deletion is right unless the name is in a list that is inline or in an
inline table. -/
theorem listEdited_deleteSubagentCommand (config : ConfigDocument)
    (name : Text) :
    (∃ after, (deleteSubagentCommand (some config.doc) name).1 = some after ∧
        ListEdited "subagents".toList commandList name NoneAfter
          config.doc after) ↔
      (CommandsInline config.doc ∨ SubagentsInline config.doc →
        ∀ entry ∈ config.commands, sameName name entry = false) := by
  by_cases htables : ∃ arr, CommandTables config.doc arr
  · obtain ⟨arr, harr⟩ := htables
    obtain ⟨hdeleted, hnot⟩ := deleted_of_commandTables harr name
    exact iff_of_true hdeleted fun hinline => absurd hinline hnot
  · have hstays := @deleteSubagentCommand_unchanged config.doc name
      fun implicit entries hlookup arr hcommands =>
        htables ⟨arr, implicit, entries, hlookup, hcommands⟩
    have hunchanged :
        (∃ after,
          (deleteSubagentCommand (some config.doc) name).1 = some after ∧
        ListEdited "subagents".toList commandList name NoneAfter
          config.doc after) ↔
        ∀ entry ∈ config.commands, sameName name entry = false := by
      rw [← listEdited_unchanged "subagents".toList config.commands_eq, hstays]
      constructor
      · rintro ⟨after, heq, hright⟩
        cases heq
        exact hright
      · intro hright
        exact ⟨config.doc, rfl, hright⟩
    rw [hunchanged]
    constructor
    · intro hnone _
      exact hnone
    · intro h
      rcases commands_of_not_commandTables htables with hnil | hinline
      · rw [hnil]
        intro entry hmem
        cases hmem
      · exact h hinline

/-! ## The three editors -/

section Editors

variable (config : ConfigDocument) (name : Text) (settings : AgentSettings)
  (cmd : SubagentCommandConfig)

/-- `upsert_agent_config` edits the agents. -/
def AgentUpserted : Prop :=
  ListEdited "agents".toList agentList name OneAfter config.doc
    (upsertAgentConfig (some config.doc) name settings)

/-- `upsert_subagent_command` edits the commands. -/
def CommandUpserted : Prop :=
  ∃ after, upsertSubagentCommand (some config.doc) cmd = some after ∧
    ListEdited "subagents".toList commandList cmd.name OneAfter config.doc after

/-- `delete_subagent_command` edits the commands. -/
def CommandDeleted : Prop :=
  ∃ after, (deleteSubagentCommand (some config.doc) name).1 = some after ∧
    ListEdited "subagents".toList commandList name NoneAfter config.doc after

/-- The editors keep a document right exactly if what they edit is not written
inline, or nothing with another name is lost and nothing with the name is
left. -/
theorem editors_right_iff :
    (AgentUpserted config name settings ↔
      (AgentsInline config.doc → ∀ entry ∈ config.agents,
        sameName name entry = true)) ∧
    (CommandUpserted config cmd ↔
      (CommandsInline config.doc → ∀ entry ∈ config.commands,
        sameName cmd.name entry = true) ∧
        (SubagentsInline config.doc → 2 ≤ config.commands.length ∧
          ∀ entry ∈ config.commands, sameName cmd.name entry = true)) ∧
    (CommandDeleted config name ↔
      (CommandsInline config.doc ∨ SubagentsInline config.doc →
        ∀ entry ∈ config.commands, sameName name entry = false)) :=
  ⟨listEdited_upsertAgentConfig config name settings,
    listEdited_upsertSubagentCommand config cmd,
    listEdited_deleteSubagentCommand config name⟩

end Editors

/-- Two agents in an inline array. -/
def inlineAgents : ConfigDocument where
  doc :=
    [("agents".toList,
      .array [.inlineTable [("name".toList, .string "claude".toList)],
      .inlineTable [("name".toList, .string "gemini".toList)]])]
  agents :=
    [[("name".toList, .string "claude".toList)],
      [("name".toList, .string "gemini".toList)]]
  commands := []
  agents_eq := rfl
  commands_eq := rfl

/-- Changing one of them takes the other. -/
theorem not_editors_right_inlineAgents :
    ¬ ∀ (config : ConfigDocument) (name : Text) (settings : AgentSettings)
      (cmd : SubagentCommandConfig), AgentUpserted config name settings ∧
        CommandUpserted config cmd ∧ CommandDeleted config name := by
  intro h
  have hedited := (h inlineAgents "claude".toList
    ⟨some false, none, none, none, none, none, none⟩ ⟨[], false, [],
      none, none⟩).1
  have hsame := (listEdited_upsertAgentConfig _ _ _).1 hedited ⟨_, rfl⟩
    [("name".toList, .string "gemini".toList)]
    (List.mem_cons_of_mem _ List.mem_cons_self)
  exact absurd hsame (by decide)

end CodeRs.Config
