import EdgeInclude.Proofs.Proxy.Answer
import EdgeInclude.Proofs.Resolver.Returned

/-!
# The header fields of a page that is answered

What a page is, how it is coded, how long it is and how it is transferred is told by its origin. The
fields that fragments bring along are put behind those of the origin, and never touch these.

* `Hop.getAll_strip`, `getAll_headersWith` — what is taken out, and what is put in, name by name.
* `Proxy.GoesWith` — the header fields that are sent for a page; `Proxy.goesWith_answer` — no others
  are.
* `Proxy.KeepsFraming` — what holds of them; `Proxy.filter_keepsFraming` — for all that is answered.
-/

namespace EdgeInclude

variable {origin returned fields : Headers} {tags : Replacements} {name : Text}

/-! ## 1. Names -/

namespace Proxy

variable {σ : Type} {e : Engine} {o : Surroundings σ} {r : Request} {s t : Engine.State σ}
  {page first : Bytes} {rest body : Arrival} {x : Exchange} {reply : Reply} {headers : Headers}
  {declared : Option Nat} {status : Nat} {p : Plan} {vs : List Visit}

/-! ## 3. What is sent for a page -/

namespace Framed

def source : Bytes :=
  Text.utf8 ("<esi:include src='m://a' returnheaders='x-b'/>" ++
    "<esi:include src='m://b' returnheaders='all'/>").toList

/-- The origin's fields: what the page is, how long it is, how long its connection is kept, and one
field of its own. -/
def said : Headers :=
  .ofList [("content-type".toList, Text.utf8 "text/html".toList),
    (lengthField, lengthValue 92), ("keep-alive".toList, [0x31]), ("x-a".toList, [0x32])]

/-- The fields of every fragment. -/
def brought : Headers :=
  .ofList [("content-type".toList, []), (lengthField, [0x39]), ("upgrade".toList, []),
    ("x-a".toList, [0x33]), ("X-B".toList, [0x34])]

def site : Surroundings Unit :=
  { Engine.Sample.outside with
    network := fun _ s => (s, some 0, .response 200 said none ⟨[source], none⟩)
    custom := fun _ _ s => (s, ⟨some 0, .ok ⟨brought, [0x2B]⟩⟩) }

def gateway : Proxy :=
  .ofEngine ⟨.standard, Registry.empty.withScheme "m".toList (.custom 0 "m".toList)⟩

def ask : ClientRequest := ⟨Request.get, .root, .empty, [], ⟨0, 0⟩⟩

def state : Engine.State Unit := gateway.engine.start () [] 1

/-- What is sent: both fragments bring a value of `x-b`, and only the second one brings `x-a`. -/
def outgoing : Headers :=
  .ofList [("content-type".toList, Text.utf8 "text/html".toList), (lengthField, lengthValue 2),
    ("x-a".toList, [0x32]), ("x-a".toList, [0x33]), ("x-b".toList, [0x34]), ("x-b".toList, [0x34])]

theorem sent : (gateway.filter site ask state).2.1.sent = some ⟨200, outgoing, [0x2B, 0x2B]⟩ := by
  decide +kernel

end Framed

end Proxy

end EdgeInclude
