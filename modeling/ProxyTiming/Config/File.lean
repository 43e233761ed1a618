import ProxyTiming.Config.Codec
import ProxyTiming.Config.Validation

/-!
# Configuration files

A configuration is kept in a file as a document in its pretty form.  Reading one
means reading the file, the document and, at last, looking for problems; all
problems are reported together.  What the system says about a path is described
by `Contents`.
-/

namespace ProxyTiming.Config


def joinMessages : List String → String
  | [] => ""
  | [m] => m
  | m :: rest => m ++ "; " ++ joinMessages rest

def parse (text : String) : Except SetupError Config :=
  match codec.decode text with
  | .error fault => .error (.document fault)
  | .ok c =>
    match c.problems with
    | [] => .ok c
    | problems => .error (.invalid (joinMessages (problems.map Problem.message)))

def text (c : Config) : String := (codec.write c).pretty

inductive Contents where
  | missing
  | directory
  | file (bytes : List UInt8)
deriving DecidableEq

def Contents.read : Contents → Except SetupError String
  | missing => .error (.io "No such file or directory (os error 2)")
  | directory => .error (.io "Is a directory (os error 21)")
  | file bytes =>
    match Text.ofUtf8? bytes with
    | some text => .ok text
    | none => .error (.io "stream did not contain valid UTF-8")

inductive Destination where
  | fresh
  | missingDirectory
  | directory
deriving DecidableEq

/-- What a path leads to after a text has been written to it. -/
def Destination.write (text : String) : Destination → Except SetupError Contents
  | fresh => .ok (.file (Text.utf8 text))
  | missingDirectory => .error (.io "No such file or directory (os error 2)")
  | directory => .error (.io "Is a directory (os error 21)")

/-- Reads a configuration from what a path leads to. -/
def ofContents (contents : Contents) : Except SetupError Config := do
  let text ← contents.read
  parse text

end ProxyTiming.Config
