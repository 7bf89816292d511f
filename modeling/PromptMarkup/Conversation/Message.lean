/-
Messages, who they are from, and conversations.

* `Role.ofName?` — the role of a name; `Role.ofName?_name` finds every role again by its name;
* `Message.text` — the text of a message, its images left out;
* `Conversation.toJson` — a conversation as JSON; a name, a tool id and tool calls are written only
  where there are any.
-/
import PromptMarkup.Json

namespace PromptMarkup

/-- Who a message is from. -/
inductive Role
  | system
  | user
  | assistant
  | tool
deriving DecidableEq, Repr

/-- The name of a role, as it is written in tags and in conversations. -/
def Role.name : Role → String
  | .system => "system"
  | .user => "user"
  | .assistant => "assistant"
  | .tool => "tool"

/-- The role of a name. -/
def Role.ofName? (name : String) : Option Role :=
  if name == "system" then some .system
  else if name == "user" then some .user
  else if name == "assistant" then some .assistant
  else if name == "tool" then some .tool
  else none

theorem Role.ofName?_name (r : Role) : Role.ofName? r.name = some r := by
  cases r <;> rfl

/-- A piece of the content of a message. -/
inductive Content
  | text (text : String)
  /-- An image, by its address. -/
  | image (url : String)

/-- A tool that the assistant wants to have called. -/
structure ToolCall where
  id : String
  name : String
  arguments : Json

/-- A message. -/
structure Message where
  role : Role
  content : List Content
  name : Option String := none
  /-- The tool call that a message of a tool answers. -/
  toolId : Option String := none
  toolCalls : List ToolCall := []

/-- A configuration and messages. -/
structure Conversation where
  config : Fields Json
  messages : List Message

/-- The message that holds the response of the assistant. -/
def Message.ofResponse (response : String) : Message :=
  { role := .assistant, content := [.text response] }

/-- The texts of a message, one behind the other. -/
def Message.text (m : Message) : String :=
  String.join (m.content.map fun
    | .text t => t
    | .image _ => "")

/-- A piece of content as JSON. -/
def Content.toJson : Content → Json
  | .text t => .object [("type", .string "text"), ("text", .string t)]
  | .image url => .object [("type", .string "image"), ("image", .string url)]

/-- A tool call as JSON. -/
def ToolCall.toJson (call : ToolCall) : Json :=
  .object [("id", .string call.id), ("name", .string call.name), ("arguments", call.arguments)]

/-- A message as JSON. -/
def Message.toJson (m : Message) : Json :=
  let optional (key : String) (v : Option String) : Fields Json :=
    (v.map fun s => (key, Json.string s)).toList
  let calls : Fields Json :=
    if m.toolCalls.isEmpty then [] else [("toolCalls", .array (m.toolCalls.map ToolCall.toJson))]
  .object ([("role", .string m.role.name), ("content", .array (m.content.map Content.toJson))] ++
    optional "name" m.name ++ optional "toolId" m.toolId ++ calls)

/-- A conversation as JSON. -/
def Conversation.toJson (c : Conversation) : Json :=
  .object [("config", .object c.config), ("messages", .array (c.messages.map Message.toJson))]

end PromptMarkup
