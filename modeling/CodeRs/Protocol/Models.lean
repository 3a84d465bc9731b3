import CodeRs.Lib.Text

/-!
# Response items

The items of a conversation, from `protocol/src/models.rs`.  The actions of
shell and web calls, the tool lists and JSON arguments of tool searches and the
commit of a ghost snapshot are left out: nothing modelled here reads them.
-/

namespace CodeRs.Protocol

inductive ContentItem where
  | inputText (text : Text)
  | inputImage (imageUrl : Text)
  | outputText (text : Text)
  deriving DecidableEq

inductive MessagePhase where
  | commentary | finalAnswer
  deriving DecidableEq

/-! ## Tool outputs -/

inductive ImageDetail where
  | auto | low | high | original
  deriving DecidableEq

def ImageDetail.text : ImageDetail → String
  | auto => "auto"
  | low => "low"
  | high => "high"
  | original => "original"

inductive FunctionCallOutputContentItem where
  | inputText (text : Text)
  | inputImage (imageUrl : Text) (detail : Option ImageDetail)
  deriving DecidableEq

inductive FunctionCallOutputBody where
  | text (content : Text)
  | contentItems (items : List FunctionCallOutputContentItem)
  deriving DecidableEq

structure FunctionCallOutputPayload where
  body : FunctionCallOutputBody
  success : Option Bool
  deriving DecidableEq

def FunctionCallOutputPayload.fromText (content : Text) :
    FunctionCallOutputPayload :=
  ⟨.text content, none⟩

def hexDigit (n : ℕ) : Char :=
  if n < 10 then Char.ofNat (0x30 + n) else Char.ofNat (0x61 + (n - 10))

/-- How `serde_json` writes one character of a string. -/
def jsonEscape (c : Char) : Text :=
  if c.toNat = 0x22 then ['\\', c]
  else if c.toNat = 0x5c then ['\\', c]
  else if c.toNat = 0x8 then ['\\', 'b']
  else if c.toNat = 0x9 then ['\\', 't']
  else if c.toNat = 0xa then ['\\', 'n']
  else if c.toNat = 0xc then ['\\', 'f']
  else if c.toNat = 0xd then ['\\', 'r']
  else if c.toNat < 0x20 then
    ['\\', 'u', '0', '0', hexDigit (c.toNat / 16), hexDigit (c.toNat % 16)]
  else [c]

def jsonString (t : Text) : Text :=
  Char.ofNat 0x22 :: t.flatMap jsonEscape ++ [Char.ofNat 0x22]

def jsonObject (fields : List (String × Text)) : Text :=
  '\x7b' :: [','].intercalate (fields.map fun field =>
    jsonString field.1.toList ++ ':' :: jsonString field.2) ++ ['\x7d']

def FunctionCallOutputContentItem.json : FunctionCallOutputContentItem → Text
  | inputText text => jsonObject [("type", "input_text".toList), ("text", text)]
  | inputImage imageUrl detail =>
      jsonObject (("type", "input_image".toList) :: ("image_url", imageUrl) ::
        (detail.map fun d => ("detail", d.text.toList)).toList)

/-- The `Display` text of an output. -/
def FunctionCallOutputPayload.display
    (output : FunctionCallOutputPayload) : Text :=
  match output.body with
  | .text content => content
  | .contentItems items =>
      '[' :: [','].intercalate (items.map FunctionCallOutputContentItem.json) ++
        [']']

/-! ## Inputs -/

/-- The `Result` of an MCP call: the JSON text of a `CallToolResult` or an
error. -/
inductive McpCallResult where
  | ok (json : Text)
  | err (message : Text)
  deriving DecidableEq

inductive ResponseInputItem where
  | message (role : String) (content : List ContentItem)
  | functionCallOutput (callId : String) (output : FunctionCallOutputPayload)
  | mcpToolCallOutput (callId : String) (result : McpCallResult)
  | customToolCallOutput (callId : String) (name : Option String)
      (output : FunctionCallOutputPayload)
  | toolSearchOutput (callId status execution : String) (tools : List Text)
  deriving DecidableEq

/-! ## Items -/

inductive ReasoningItemContent where
  | reasoningText (text : Text)
  | text (text : Text)
  deriving DecidableEq

inductive ResponseItem where
  | additionalTools (id : Option String) (role : String)
  | message (id : Option String) (role : String) (content : List ContentItem)
      (endTurn : Option Bool) (phase : Option MessagePhase)
  | reasoning (id : Option String) (summary : List Text)
      (content : Option (List ReasoningItemContent))
      (encryptedContent : Option Text)
  | localShellCall (id callId : Option String)
  | functionCall (id : Option String) (name : String) (space : Option String)
      (arguments : Text) (callId : String)
  | toolSearchCall (id callId status : Option String) (execution : String)
  | functionCallOutput (callId : String) (output : FunctionCallOutputPayload)
  | customToolCall (id status : Option String) (callId name : String)
      (space : Option String) (input : Text)
  | customToolCallOutput (callId : String) (name : Option String)
      (output : FunctionCallOutputPayload)
  | toolSearchOutput (callId : Option String) (status execution : String)
  | webSearchCall (id status : Option String)
  | imageGenerationCall (id status : String) (revisedPrompt : Option
    Text) (result : Text)
  | ghostSnapshot
  | compactionSummary (encryptedContent : Text)
  | contextCompaction (encryptedContent : Option Text)
  | other
  deriving DecidableEq

/-- A message of a role with one text. -/
def ResponseItem.ofText (role : String) (content : ContentItem) :
    ResponseItem :=
  .message none role [content] none none

end CodeRs.Protocol
