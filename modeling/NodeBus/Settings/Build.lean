import NodeBus.Settings
import NodeBus.Settings.Box
import NodeBus.Toml.Document

/-!
# Configuring a build

What comes of configuring the build of a node from the file `node.toml`: the
generated constants, or a diagnostic, with the lines printed for the build tool.
How the text of the file is read as a document is a parameter (`configureWith`); the
build reads it as TOML (`configure`).
-/

namespace NodeBus.Settings

/-- What can be found in place of the file. -/
inductive Source where
  | missing
  /-- The bytes of the file. -/
  | file (bytes : ByteArray)

/-- What comes of configuring a build. -/
inductive Outcome where
  /-- The text of the generated constants. -/
  | configured (constants : String)
  /-- The build stops with this diagnostic. -/
  | stopped (diagnostic : String)
  /-- The build stops because the file is no TOML. -/
  | invalid
  /-- The build breaks off: the file is no TOML, and the report on that does not fit
  into a box. -/
  | unreportable
  deriving DecidableEq, Repr

/-- The lines printed for the build tool before the file is looked at. -/
def directives : List String :=
  ["cargo:rustc-link-search=$OUT_DIR", "cargo:rustc-link-arg-bins=--nmagic",
    "cargo:rustc-link-arg-bins=-Tlink.x", "cargo:rustc-link-arg-bins=-Tlink-rp.x",
    "cargo:rustc-link-arg-bins=-Tdefmt.x", "cargo:rerun-if-changed=memory.x",
    "cargo:rerun-if-changed=build.rs", "cargo:rerun-if-changed=node.toml"]

/-- The line printed when all settings are right. -/
def confirmation : String := "cargo:warning=node.toml validated successfully"

/-- The diagnostic for a missing file. -/
def missingBox : String :=
  box [row "  ERROR: node.toml not found!", row "",
    row "  The firmware requires a node.toml configuration file in the",
    row "  courier-firmware directory."]

/-- The diagnostic for a file whose bytes are no text. -/
def unreadableBox : String :=
  box [row "  ERROR: Failed to read node.toml", row "",
    row "  Error: stream did not contain valid UTF-8"]

/-- The diagnostic that lists complaints about settings. -/
def complaintBox (complaints : List String) : String :=
  box ([row "  ERROR: Invalid node configuration", border "╠" "╣"] ++ complaints.map item)

/-- What reads a document: its value, or the report on a text that is none. -/
abbrev Parser := String → Except String Toml.Value

/-- What comes of a report on the text of the file. -/
def ofReport (report : String) : Outcome :=
  if (boxLines report).isSome then .invalid else .unreportable

/-- Configure a build from a document. -/
def ofDocument (document : Toml.Value) : Outcome :=
  match Tuning.ofDocument document with
  | .ok tuning => .configured tuning.constants
  | .error complaints => .stopped (complaintBox complaints)

/-- Configure a build from the text of the file. -/
def ofText (parse : Parser) (text : String) : Outcome :=
  match parse text with
  | .error report => ofReport report
  | .ok document => ofDocument document

/-- Configure a build with a parser. -/
def configureWith (parse : Parser) : Source → Outcome
  | .missing => .stopped missingBox
  | .file bytes =>
    match String.fromUTF8? bytes with
    | none => .stopped unreadableBox
    | some text => ofText parse text

/-- Configure a build. -/
def configure : Source → Outcome := configureWith Toml.parse

/-- The lines printed for the build tool. -/
def printed : Outcome → List String
  | .configured _ => directives ++ [confirmation]
  | _ => directives

end NodeBus.Settings
