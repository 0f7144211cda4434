/-!
# Decoding the output of a command

Output arrives as bytes and is logged as text. `String::from_utf8` reports where
the first invalid sequence starts and, unless the input merely stopped too early,
how many bytes it has; both executors let this report reach a log or an error.
-/

namespace There

structure Utf8Error where
  validUpTo : Nat
  errorLen : Option Nat
deriving Repr, DecidableEq

namespace Utf8Error

/-- Whether a byte may follow the lead byte `lead` directly. -/
def followsLead (lead next : UInt8) : Bool :=
  if lead = 0xE0 then 0xA0 ≤ next && next ≤ 0xBF
  else if lead = 0xED then 0x80 ≤ next && next ≤ 0x9F
  else if lead = 0xF0 then 0x90 ≤ next && next ≤ 0xBF
  else if lead = 0xF4 then 0x80 ≤ next && next ≤ 0x8F
  else 0x80 ≤ next && next ≤ 0xBF

def isContinuation (byte : UInt8) : Bool := 0x80 ≤ byte && byte ≤ 0xBF

/-- The length of the invalid sequence that `bytes` starts with; nothing when the
bytes end inside a sequence that could still become valid. -/
def invalidLen : List UInt8 → Option Nat
  | [] => none
  | lead :: rest =>
      if lead < 0xC2 || 0xF4 < lead then some 1
      else
        match rest with
        | [] => none
        | second :: rest =>
            if !followsLead lead second then some 1
            else
              match rest with
              | [] => none
              | third :: rest =>
                  if !isContinuation third then some 2
                  else
                    match rest with
                    | [] => none
                    | _ => some 3

/-- The report on bytes that are not valid UTF-8. -/
def of (bytes : ByteArray) : Utf8Error :=
  let valid := fun n => (String.fromUTF8? (bytes.extract 0 n)).isSome
  let validUpTo := ((List.range (bytes.size + 1)).filter valid).getLastD 0
  ⟨validUpTo, invalidLen (bytes.toList.drop validUpTo)⟩

def display (e : Utf8Error) : String :=
  match e.errorLen with
  | some n => s!"invalid utf-8 sequence of {n} bytes from index {e.validUpTo}"
  | none => s!"incomplete utf-8 byte sequence from index {e.validUpTo}"

/-- The pretty debug form of the error that carries the bytes along. -/
def debug (e : Utf8Error) (bytes : ByteArray) : String :=
  let listed := bytes.toList.map fun b => s!"        {b},\n"
  let errorLen := match e.errorLen with
    | some n => s!"Some(\n            {n},\n        )"
    | none => "None"
  "FromUtf8Error \x7b\n    bytes: [" ++
    (if listed.isEmpty then "" else "\n" ++ String.join listed ++ "    ") ++
    "],\n    error: Utf8Error \x7b\n        valid_up_to: " ++ toString e.validUpTo ++
    ",\n        error_len: " ++ errorLen ++ ",\n    \x7d,\n\x7d"

end Utf8Error

/-- `split('\n')` of the text of a frame. -/
def splitLines (text : String) : List String := (text.toList.splitOn '\n').map String.ofList

/-- The text of a chunk of local output, or the debug form of why it is none. -/
def textOrDebug (bytes : ByteArray) : String :=
  match String.fromUTF8? bytes with
  | some text => text
  | none => "got: " ++ (Utf8Error.of bytes).debug bytes

example : splitLines "a\nb\n" = ["a", "b", ""] := by decide

end There
