import Mathlib.Data.List.Basic

/-!
# Shell scripts as a shell reads them

A script is the sequence of its words, redirections and operators.  A simple
command may start at the beginning, after every operator, and inside every
substitution; `commands` lists the simple commands that can run, and
`mem_commands` says where each of them starts.
-/

namespace CodeRs.Shell

/-- The operators between two commands. -/
inductive Connector where
  | andIf | orIf | semicolon | pipe | background | newline
  deriving DecidableEq, Repr

/-- How an operator is spelled as a word; a line break is white space. -/
def Connector.words : Connector → List String
  | andIf => ["&&"]
  | orIf => ["||"]
  | semicolon => [";"]
  | pipe => ["|"]
  | background => ["&"]
  | newline => []

/-- The constructs that contain a script. -/
inductive Nesting where
  | commandSubstitution | processInput | processOutput | subshell
  deriving DecidableEq, Repr

/-- The word before the inner script. -/
def Nesting.opening : Nesting → String
  | commandSubstitution => "$("
  | processInput => "<("
  | processOutput => ">("
  | subshell => "("

/-- An argument of a simple command.  The text of a substitution is not known
before the script runs. -/
inductive Arg where
  | text (word : String)
  | substituted
  deriving DecidableEq, Repr

/-- The argument that a construct leaves in the command around it. -/
def Nesting.args : Nesting → List Arg
  | subshell => []
  | _ => [.substituted]

inductive Script where
  | done
  | word (text : String) (rest : Script)
  | redirect (operator target : String) (rest : Script)
  | connector (connector : Connector) (rest : Script)
  | nested (nesting : Nesting) (inner rest : Script)
  deriving DecidableEq, Repr

namespace Script

/-- The words separated by white space, operators being ordinary words. -/
def words : Script → List String
  | done => []
  | word text rest => text :: rest.words
  | redirect operator target rest => operator :: target :: rest.words
  | connector c rest => c.words ++ rest.words
  | nested nesting inner rest =>
      nesting.opening :: inner.words ++ ")" :: rest.words

/-- A command that has no words runs nothing. -/
def finish (args : List Arg) : List (List Arg) :=
  if args = [] then [] else [args]

/-- The simple commands that can run, when `args` are the arguments read so
far. -/
def commandsAfter : List Arg → Script → List (List Arg)
  | args, done => finish args
  | args, word text rest => commandsAfter (args ++ [.text text]) rest
  | args, redirect _ _ rest => commandsAfter args rest
  | args, connector _ rest => finish args ++ commandsAfter [] rest
  | args, nested nesting inner rest =>
      commandsAfter [] inner ++ commandsAfter (args ++ nesting.args) rest

/-- The simple commands that can run. -/
def commands (script : Script) : List (List Arg) := commandsAfter [] script

/-- The arguments up to the next operator. -/
def firstCommand : Script → List Arg
  | done => []
  | word text rest => .text text :: rest.firstCommand
  | redirect _ _ rest => rest.firstCommand
  | connector _ _ => []
  | nested nesting _ rest => nesting.args ++ rest.firstCommand

/-- The later places where a command can start: after an operator, and inside a
construct. -/
def laterStarts : Script → List Script
  | done => []
  | word _ rest => rest.laterStarts
  | redirect _ _ rest => rest.laterStarts
  | connector _ rest => rest :: rest.laterStarts
  | nested _ inner rest => inner :: inner.laterStarts ++ rest.laterStarts

theorem mem_finish {args c : List Arg} :
    c ∈ finish args ↔ c ≠ [] ∧ c = args := by
  rw [finish]
  split
  · rename_i hnil
    subst hnil
    simp
  · rename_i hargs
    rw [List.mem_singleton]
    exact ⟨fun h => ⟨h ▸ hargs, h⟩, And.right⟩

theorem mem_commandsAfter {args c : List Arg} {script : Script} :
    c ∈ commandsAfter args script ↔
      c ≠ [] ∧ (c = args ++ script.firstCommand ∨
        ∃ start ∈ script.laterStarts, c = start.firstCommand) := by
  induction script generalizing args with
  | done => simp [commandsAfter, mem_finish, firstCommand, laterStarts]
  | word text rest ih =>
      simp [commandsAfter, ih, firstCommand, laterStarts]
  | redirect operator target rest ih =>
      simp [commandsAfter, ih, firstCommand, laterStarts]
  | connector connector rest ih =>
      simp only [commandsAfter, List.mem_append, mem_finish, ih, firstCommand,
        laterStarts, List.append_nil, List.nil_append, List.exists_mem_cons_iff]
      rw [← and_or_left]
  | nested nesting inner rest ihinner ihrest =>
      simp only [commandsAfter, List.mem_append, ihinner, ihrest, firstCommand,
        laterStarts, List.nil_append, List.append_assoc, List.cons_append,
        List.mem_cons, or_and_right, exists_or, exists_eq_left]
      rw [← and_or_left]
      exact and_congr_right fun _ => by rw [or_left_comm, or_assoc]

/-- A simple command starts at the beginning or at a later start. -/
theorem mem_commands {c : List Arg} {script : Script} :
    c ∈ script.commands ↔
      c ≠ [] ∧ ∃ start ∈ script :: script.laterStarts,
        c = start.firstCommand := by
  rw [commands, mem_commandsAfter, List.nil_append, List.exists_mem_cons_iff]

end Script

end CodeRs.Shell
