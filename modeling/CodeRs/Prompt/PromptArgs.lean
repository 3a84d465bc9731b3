import CodeRs.Lib.Utf8
import Mathlib.Logic.Function.Basic

/-!
# Arguments of custom prompts

`tui/src/bottom_pane/prompt_args.rs`.  A saved prompt with named placeholders
takes its arguments as assignments, one with numeric placeholders by their
positions, and to any other one the arguments are appended.  Splitting a
command line into words and the names of the built-in commands are parameters.
An index that is out of bounds or inside a character gives nothing.
-/

namespace CodeRs.Prompt

open Text

/-! ## Commands -/

/-- `parse_slash_name`: the name of a command and what comes after it. -/
def parseSlashName : Text → Option (Text × Text)
  | '/' :: stripped =>
      let name := stripped.takeWhile fun c => !isWhitespace c
      if name = [] then none
      else some (name,
        (stripped.dropWhile fun c => !isWhitespace c).dropWhile isWhitespace)
  | _ => none

/-- `PROMPTS_CMD_PREFIX` and the colon. -/
def promptsFront : Text := "prompts:".toList

structure CustomPrompt where
  name : Text
  content : Text
  deriving DecidableEq

/-! ## Named placeholders -/

/-- A character of a text, or a match of the pattern of named placeholders,
with whether a dollar sign stands before it. -/
inductive Segment where
  | char (c : Char)
  | arg (escaped : Bool) (name : Text)
  deriving DecidableEq

/-- The first character of a name. -/
def isNameStart (c : Char) : Bool := c.isUpper

def isNameChar (c : Char) : Bool := c.isUpper || c.isDigit || c = '_'

/-- What `PROMPT_ARG_REGEX` finds in a text that follows a dollar sign, or
something else. -/
def argSegments (escaped : Bool) : Text → List Segment
  | [] => []
  | c :: t =>
      if c = '$' then
        match t with
        | [] => [.char c]
        | d :: rest =>
            if isNameStart d then
              .arg escaped (d :: rest.takeWhile isNameChar) ::
                argSegments false (rest.dropWhile isNameChar)
            else .char c :: argSegments true (d :: rest)
      else .char c :: argSegments false t
termination_by t => t.length
decreasing_by
  · have hle := (List.dropWhile_sublist isNameChar (l := rest)).length_le
    simp only [List.length_cons]
    omega
  · simp
  · simp

def promptArgumentNames (content : Text) : List Text :=
  ((argSegments false content).filterMap fun segment =>
    match segment with
    | .arg false name => if name = "ARGUMENTS".toList then none else some name
    | _ => none).eraseDups

/-- Without capital letters no named placeholder is found. -/
theorem argSegments_of_noUpper {content : Text}
    (h : ∀ c ∈ content, c.isUpper = false)
    (escaped : Bool) : argSegments escaped content = content.map .char := by
  induction content generalizing escaped with
  | nil => rw [argSegments, List.map_nil]
  | cons c t ih =>
      have ht := ih fun d hd => h d (List.mem_cons_of_mem c hd)
      rw [argSegments.eq_def]
      dsimp only
      split
      next =>
        cases t with
        | nil => rfl
        | cons d rest =>
            have hd : isNameStart d = false :=
              h d (List.mem_cons_of_mem c List.mem_cons_self)
            dsimp only
            rw [hd, if_neg Bool.false_ne_true, ht]
            rfl
      next => rw [ht, List.map_cons]

theorem promptArgumentNames_of_noUpper {content : Text}
    (h : content.any Char.isUpper = false) :
    promptArgumentNames content = [] := by
  have hnone : ((content.map Segment.char).filterMap fun segment =>
      match segment with
      | .arg false name => if name = "ARGUMENTS".toList then none else some name
      | _ => none) = [] := by
    rw [List.filterMap_map, List.filterMap_eq_nil_iff]
    exact fun c _ => rfl
  have hupper : ∀ c ∈ content, c.isUpper = false :=
    fun c hc => Bool.eq_false_iff.2 (List.any_eq_false.1 h c hc)
  rw [promptArgumentNames, argSegments_of_noUpper hupper, hnone]
  rfl

inductive PromptArgsError where
  | missingAssignment (token : Text)
  | missingKey (token : Text)
  deriving DecidableEq

/-- `str::split_once` for an equals sign. -/
def splitAssignment (token : Text) : Option (Text × Text) :=
  if '=' ∈ token then
    some (token.takeWhile (· ≠ '='), (token.dropWhile (· ≠ '=')).tail)
  else none

def addInput (inputs : Text → Option Text) (token : Text) :
    Except PromptArgsError (Text → Option Text) :=
  match splitAssignment token with
  | none => .error (.missingAssignment token)
  | some (name, value) =>
      if name = [] then .error (.missingKey token)
      else .ok (Function.update inputs name (some value))

variable (shlex : Text → List Text)

def parsePromptInputs (rest : Text) :
    Except PromptArgsError (Text → Option Text) :=
  if rest.trim = [] then .ok fun _ => none
  else (shlex rest).foldlM addInput fun _ => none

/-- The named placeholders replaced by the inputs. -/
def replaceNamed (inputs : Text → Option Text) (content : Text) : Text :=
  (argSegments false content).flatMap fun segment =>
    match segment with
    | .char c => [c]
    | .arg true name => '$' :: name
    | .arg false name => (inputs name).getD ('$' :: name)

/-! ## Numeric placeholders -/

/-- `b'1'..=b'9'`. -/
def isPositionByte (b : UInt8) : Bool := 49 ≤ b.toNat && b.toNat ≤ 57

/-- The loop of `prompt_has_numeric_placeholders`: a dollar sign and a digit
behind it. -/
def hasPositionBytes : List UInt8 → Bool
  | b :: b1 :: bytes =>
  (b = 36 && isPositionByte b1) || hasPositionBytes (b1 :: bytes)
  | _ => false

def promptHasNumericPlaceholders (content : Text) : Bool :=
  content.contains "$ARGUMENTS" || hasPositionBytes (utf8 content)

/-- What `expand_numeric_placeholders` makes of a text that begins with a
dollar sign: what it adds to the output, and the bytes that it goes on by. -/
def expandDollar (args : List Text) (rest : Text) : Option (Text × ℕ) :=
  let b1 := (utf8 rest)[1]?
  if b1 = some 36 then some (['$', '$'], 2)
  else
    match b1.filter isPositionByte with
    | some b => some ((args[b.toNat - 49]?).getD [], 2)
    | none =>
        if byteLen "ARGUMENTS".toList < rest.byteLen then
          (rest.drain 1).map fun tail =>
            if tail.startsWith "ARGUMENTS" then
              (if args ≠ [] then [' '].intercalate args
                else [], 1 + byteLen "ARGUMENTS".toList)
            else (['$'], 1)
        else some (['$'], 1)

/-- The loop of `expand_numeric_placeholders` from a byte position on, for a
number of rounds. -/
def expandFrom (content : Text) (args : List Text) : ℕ → ℕ → Text → Option Text
  | 0, _, _ => none
  | rounds + 1, i, out =>
      (content.drain i).bind fun tail =>
        match findChar '$' tail with
        | none => some (out ++ tail)
        | some off =>
            (content.slice i (i + off)).bind fun gap =>
              (content.drain (i + off)).bind fun rest =>
                (expandDollar args rest).bind fun (added, len) =>
                  expandFrom content args rounds (i + off + len)
                    (out ++ gap ++ added)

/-- `expand_numeric_placeholders`.  Every round goes on by a byte at least. -/
def expandNumericPlaceholders (content : Text) (args : List Text) :
    Option Text :=
  expandFrom content args (content.byteLen + 1) 0 []

/-! ## Expansion -/

inductive PromptExpansionError where
  | args (command : Text) (error : PromptArgsError)
  | missingArgs (command : Text) (missing : List Text)
  deriving DecidableEq

/-- The name of the prompt that a command names: what is behind `prompts:`, or
the name itself if no built-in command has it. -/
def promptName (builtins : List Text) (name : Text) : Option Text :=
  if promptsFront.isPrefixOf name then some (name.drop promptsFront.length)
  else if name ∈ builtins then none
  else some name

/-- The command, what comes after it and the prompt that it names. -/
def findPrompt (builtins : List Text) (text : Text)
    (customPrompts : List CustomPrompt) :
    Option (Text × Text × CustomPrompt) :=
  (parseSlashName text).bind fun (name, rest) =>
    (promptName builtins name).bind fun wanted =>
      (customPrompts.find? fun prompt => prompt.name = wanted).map fun prompt =>
        (name, rest, prompt)

/-- A prompt with named placeholders, expanded. -/
def expandNamed (name rest content : Text) (required : List Text) :
    Except PromptExpansionError Text :=
  match parsePromptInputs shlex rest with
  | .error error => .error (.args ('/' :: name) error)
  | .ok inputs =>
      let missing := required.filter fun k => inputs k = none
      if missing ≠ [] then .error (.missingArgs ('/' :: name) missing)
      else .ok (replaceNamed inputs content)

/-- The content with the arguments behind it on a line of their own. -/
def appendArgs (content rest : Text) : Text :=
  content ++ (if content.getLast? = some '\n' then [] else ['\n']) ++ rest.trim

def expandCustomPrompt (builtins : List Text) (text : Text)
    (customPrompts : List CustomPrompt) :
    Option (Except PromptExpansionError (Option Text)) :=
  match findPrompt builtins text customPrompts with
  | none => some (.ok none)
  | some (name, rest, prompt) =>
      let required := promptArgumentNames prompt.content
      if required ≠ [] then
        some ((expandNamed shlex name rest prompt.content required).map some)
      else if promptHasNumericPlaceholders prompt.content then
        (expandNumericPlaceholders prompt.content (shlex rest)).map
          fun expanded =>
          .ok (some expanded)
      else if rest.trim ≠ [] then
        some (.ok (some (appendArgs prompt.content rest)))
      else some (.ok (some prompt.content))

end CodeRs.Prompt
