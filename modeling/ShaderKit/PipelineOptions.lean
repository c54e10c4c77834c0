import ShaderKit.WhiteSpace

/-!
# Options

The options of a pipeline manager have defaults, and each can be set by a variable of the
environment. A value that does not fit the option is ignored.
-/

namespace ShaderKit

/-- How a pipeline manager works. Zero threads leave the number to the machine. -/
structure PipelineOptions where
  maxDynamicUniformBuffers : Nat
  maxDynamicStorageBuffers : Nat
  stateCache : Bool
  compilerThreads : Nat
  deriving DecidableEq, Repr

namespace PipelineOptions

def standard : PipelineOptions := ⟨8, 4, true, 0⟩

/-- The variables of the environment by which options are set. -/
def uniformBuffersVariable : String := "DXBRIDGE_MAX_DYNAMIC_UNIFORM_BUFFERS"
def storageBuffersVariable : String := "DXBRIDGE_MAX_DYNAMIC_STORAGE_BUFFERS"
def stateCacheVariable : String := "DXBRIDGE_STATE_CACHE"
def compilerThreadsVariable : String := "DXBRIDGE_COMPILER_THREADS"

def isDigit (c : Char) : Bool := '0' ≤ c && c ≤ '9'

/-- Reads decimal digits behind a number that was read from the digits in front of them. It stops
at a character that is no digit, and where the number reaches the limit. -/
def readDigits (limit acc : Nat) : List Char → Option Nat
  | [] => some acc
  | c :: cs =>
    let acc' := 10 * acc + (c.toNat - '0'.toNat)
    if isDigit c ∧ acc' < limit then readDigits limit acc' cs else none

/-- A number below a limit: ASCII digits behind at most one plus sign, with white space around
them. -/
def number? (limit : Nat) (text : String) : Option Nat :=
  let cs := WhiteSpace.trim text.toList
  let digits := if cs.head? = some '+' then cs.tail else cs
  if digits = [] then none else readDigits limit 0 digits

/-- The words for the two truth values, in lowercase. -/
def yesWords : List String := ["1", "true", "yes", "on"]
def noWords : List String := ["0", "false", "no", "off"]

/-- A truth value: one of the words in any ASCII case, with white space around it. -/
def truth? (text : String) : Option Bool :=
  let word := String.ofList ((WhiteSpace.trim text.toList).map Char.toLower)
  if word ∈ yesWords then some true else if word ∈ noWords then some false else none

def ofEnvironment (lookup : String → Option String) : PipelineOptions where
  maxDynamicUniformBuffers :=
    ((lookup uniformBuffersVariable).bind (number? UInt32.size)).getD
      standard.maxDynamicUniformBuffers
  maxDynamicStorageBuffers :=
    ((lookup storageBuffersVariable).bind (number? UInt32.size)).getD
      standard.maxDynamicStorageBuffers
  stateCache := ((lookup stateCacheVariable).bind truth?).getD standard.stateCache
  compilerThreads :=
    ((lookup compilerThreadsVariable).bind (number? UInt64.size)).getD standard.compilerThreads

def effectiveThreads? (o : PipelineOptions) : Option Nat :=
  if o.compilerThreads = 0 then none else some o.compilerThreads

end PipelineOptions

end ShaderKit
