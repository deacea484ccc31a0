-- SUMMARY: The failures that reach the user, their wording, and their JSON form.
import DecompilerDesk.Json.Tagged

/-!
# Failures

Every failure ends as a line in the console, so its message stands by itself.
-/

namespace DecompilerDesk

inductive Failure where
  /-- The engine rejected a command. -/
  | engine (command message : String)
  /-- The engine could not be reached. -/
  | transport (operation reason : String)
  /-- The engine answered with something that is no answer. -/
  | protocol (reason : String)
  /-- The user typed something that is no address. -/
  | badAddress (input : String)
  | badLayout (reason : String)
  /-- A settings file could not be used. -/
  | settings (path reason : String)
  | serialization (reason : String)
  | noFile
  deriving DecidableEq, Repr

namespace Failure

inductive Kind where
  | engine | transport | protocol | badAddress | badLayout | settings | serialization | noFile
  deriving DecidableEq, Repr

def kind : Failure → Kind
  | engine .. => .engine
  | transport .. => .transport
  | protocol .. => .protocol
  | badAddress .. => .badAddress
  | badLayout .. => .badLayout
  | settings .. => .settings
  | serialization .. => .serialization
  | noFile => .noFile

def message : Failure → String
  | engine command message => command ++ ": " ++ message
  | transport operation reason => "Engine transport error: " ++ operation ++ " - " ++ reason
  | protocol reason => "Engine protocol error: " ++ reason
  | badAddress input => "Invalid Address: '" ++ input ++ "'"
  | badLayout reason => "Invalid layout: " ++ reason
  | settings path reason => "Config error: '" ++ path ++ "' - " ++ reason
  | serialization reason => "Serialization error: " ++ reason
  | noFile => "No file is open"

def code (failure : Failure) : String :=
  match failure.kind with
  | .engine => "ENGINE_ERROR"
  | .transport => "TRANSPORT_ERROR"
  | .protocol => "PROTOCOL_ERROR"
  | .badAddress => "INVALID_ADDRESS"
  | .badLayout => "INVALID_LAYOUT"
  | .settings => "CONFIG_ERROR"
  | .serialization => "SERIALIZATION_ERROR"
  | .noFile => "NO_FILE_OPEN"

/-- Whether the connection to the engine failed, rather than a request. Such a failure leaves the
pipe unusable, but may be gone once the engine is started again. -/
def isRecoverable (failure : Failure) : Bool :=
  failure.kind = .transport || failure.kind = .protocol

/-! ## JSON form -/

namespace Kind

def all : List Kind :=
  [engine, transport, protocol, badAddress, badLayout, settings, serialization, noFile]

def name : Kind → String
  | engine => "Engine"
  | transport => "Transport"
  | protocol => "Protocol"
  | badAddress => "InvalidAddress"
  | badLayout => "InvalidLayout"
  | settings => "Config"
  | serialization => "Serialization"
  | noFile => "NoFileOpen"

open Json

private def oneText (key : String) (build : String → Failure) : Content Failure :=
  .record (.cons (.required key .text) .nil) fun (value, ()) => build value

private def twoTexts (key₁ key₂ : String) (build : String → String → Failure) : Content Failure :=
  .record (.cons (.required key₁ .text) (.cons (.required key₂ .text) .nil))
    fun (value₁, value₂, ()) => build value₁ value₂

def content : Kind → Content Failure
  | engine => twoTexts "command" "message" Failure.engine
  | transport => twoTexts "operation" "reason" Failure.transport
  | protocol => oneText "reason" Failure.protocol
  | badAddress => oneText "input" Failure.badAddress
  | badLayout => oneText "reason" Failure.badLayout
  | settings => twoTexts "path" "reason" Failure.settings
  | serialization => oneText "reason" Failure.serialization
  | noFile => .nothing Failure.noFile

def wanted (kind : Kind) : String :=
  (if kind = noFile then "unit" else "struct") ++ " variant FirebatError::" ++ kind.name

end Kind

open Json in
def tagging : Tagging Failure Kind where
  name := "adjacently tagged enum FirebatError"
  tagKey := "type"
  contentKey := "details"
  tags := Kind.all.map fun kind => (kind.name, kind)
  content := Kind.content
  wanted := Kind.wanted

/-- The members of the content, if there is any. -/
def details : Failure → List (String × Json)
  | engine command message => [("command", .text command), ("message", .text message)]
  | transport operation reason => [("operation", .text operation), ("reason", .text reason)]
  | protocol reason => [("reason", .text reason)]
  | badAddress input => [("input", .text input)]
  | badLayout reason => [("reason", .text reason)]
  | settings path reason => [("path", .text path), ("reason", .text reason)]
  | serialization reason => [("reason", .text reason)]
  | noFile => []

def toJson (failure : Failure) : Json :=
  .object (("type", .text failure.kind.name) ::
    if failure.details.isEmpty then [] else [("details", .object failure.details)])

def codec : Json.Codec Failure := .tagged tagging toJson

/-- A fault in a JSON text or value. -/
def ofFault (fault : Json.Fault) : Failure := .serialization fault.message

end Failure

end DecompilerDesk
