import ShaderKit.Container
import ShaderKit.SignatureParsing

/-!
# Choosing a signature in a container

A container may hold several chunks of one signature kind, in either spelling. The first
chunk of the asked spelling that can be read is taken, and if there is none the first
readable one of the other spelling. Only if no chunk can be read does the fault of the first
chunk show, that of the asked spelling before that of the other.
-/

namespace ShaderKit.Container

/-- The outcome for the chunks of one spelling: the first that can be read, or else the fault
of the first, or nothing if there is none. -/
def firstSignature? (c : Container) (name : FourCC) : Option (Except FormatFault Signature) :=
  let readings := (c.chunks.filter (·.name = name)).map fun k => Signature.parse name k.payload
  match readings.findSome? Except.toOption with
  | some s => some (.ok s)
  | none => readings.head?.map (·.mapError (.signatureChunk name))

/-- The signature of a kind, if the container has chunks for it. -/
def signature? (c : Container) (kind : FourCC) : Option (Except FormatFault Signature) :=
  match c.firstSignature? kind, kind.signatureVariant? with
  | some (.ok s), _ => some (.ok s)
  | asked, none => asked
  | asked, some variant =>
    match asked, c.firstSignature? variant with
    | _, some (.ok s) => some (.ok s)
    | none, other => other
    | asked, _ => asked

end ShaderKit.Container
