import Ferro.Usb.Addresses
import Ferro.Usb.Descriptors

/-!
# The keyboard that is found

What the driver knows of its keyboard is what the device has said of itself: the packet size from its device descriptor,
the endpoint from its configuration.
-/

namespace Ferro.Usb

open Traced (Triple)

/-- What a device returns for a request, no more than was asked for. -/
def Population.returned (pop : Population) (d : Nat) (trace : List Exchange) (req : Request) : List UInt8 :=
  ((pop.answers d trace req).getD []).take req.length

/-- A request, its address, and the bytes that came back. -/
abbrev Said := UInt32 × Request × List UInt8

/-- Each request went to its address next, and its bytes are what one of the devices that answered returned. -/
inductive Dialogue (pop : Population) (before : List Exchange) : List Said → List Exchange → Prop
  | nil : Dialogue pop before [] before
  | snoc {said : List Said} {trace : List Exchange} {addr : UInt32} {req : Request} {ds : List Nat} {d : Nat} :
      Dialogue pop before said trace → d ∈ ds →
      Dialogue pop before (said ++ [(addr, req, pop.returned d trace req)]) (trace ++ [⟨addr, req, ds⟩])

def deviceRequest : Request := ⟨0x80, reqGetDescriptor, descTypeDevice <<< 8, 0, 18⟩

def addressRequest (addr : UInt32) : Request := ⟨0x00, reqSetAddress, addr.toUInt16, 0, 0⟩

def configurationRequest (length : Nat) : Request := ⟨0x80, reqGetDescriptor, descTypeConfiguration <<< 8, 0, length⟩

def configureRequest (config : UInt8) : Request := ⟨0x00, reqSetConfiguration, config.toUInt16, 0, 0⟩

/-- An enumeration: the device is described and addressed at address 0, and configured at its own. The length of the
configuration is the one in its header, as far as the buffer goes. -/
def enumeration (addr : UInt32) (desc header cfg : List UInt8) : List Said :=
  [(0, deviceRequest, desc), (0, addressRequest addr, []), (addr, configurationRequest 9, header),
    (addr, configurationRequest (min (max (le16At (fill 9 header) 2).toNat 9) 64), cfg),
    (addr, configureRequest ((fill 9 header).getD 5 0), [])]

/-- The keyboard is the device of the enumeration that ends the trace, and its endpoint is the first of a boot keyboard's
interface in the configuration. -/
def Enumerated (pop : Population) (kbd : Keyboard) (trace : List Exchange) : Prop :=
  ∃ before desc header ds rest k d,
    Dialogue pop before (enumeration kbd.dev.addr desc header (List.flatten ds ++ rest)) trace ∧
    (∀ d ∈ ds, Framed d) ∧ Unframed rest ∧
    ds[k]? = some d ∧ IsKeyboardEndpoint ds k ∧ (∀ j < k, ¬ IsKeyboardEndpoint ds j) ∧
    kbd.dev.maxPacketSize = max ((fill 18 desc).getD 7 0).toUInt32 8 ∧
    kbd.epNum = (endpoint d).1 ∧ kbd.epMps = min (endpoint d).2 8

/-- A search that finds a keyboard has enumerated it. -/
def Enumerates (pop : Population) (r : Except HidError Keyboard) (b : Bus) : Prop :=
  ∀ kbd, r = .ok kbd → Enumerated pop kbd b.trace

variable {pop : Population} {b : Bus} {dev hub : Device} {before : List Exchange} {said : List Said}

theorem Population.returned_of_zero (d : Nat) (trace : List Exchange) {req : Request} (h : req.length = 0) :
    pop.returned d trace req = [] := by
  rw [Population.returned, h, List.take_zero]

theorem Enumerates.error (e : HidError) (b : Bus) : Enumerates pop (.error e) b := fun _ h => by cases h

/-- Of what is asked before the last enumeration nothing is needed. -/
theorem triple_true {α : Type} {x : Driver α} : Triple (fun _ => True) x fun _ _ => True := fun _ _ _ _ _ => trivial

section

variable {requestType request : UInt8} {value index : UInt16} {length : Nat} {α : Type} {f : List UInt8 → Driver α}
variable {K : Except HidError α → Bus → Prop}

/-- A request and what follows it: the bytes go on with the dialogue. -/
theorem triple_asks (herr : ∀ e b, K (.error e) b)
    (hf : ∀ bytes, (length = 0 → bytes = []) →
      Triple (fun b => Dialogue pop before (said ++ [(dev.addr, ⟨requestType, request, value, index, length⟩, bytes)]) b.trace)
        (f bytes) K) :
    Triple (fun b => Dialogue pop before said b.trace)
      (controlTransfer pop dev requestType request value index length >>= f) K := by
  intro b r b' hb hrun
  rw [Traced.runs_bind] at hrun
  simp only [controlTransfer, Traced.runs, ExceptT.run, ExceptT.mk, StateT.run] at hrun
  split at hrun
  · next bytes b₁ heq =>
    split at heq
    · cases heq
    · next d hd =>
      cases heq
      exact hf (pop.returned d b.trace ⟨requestType, request, value, index, length⟩)
        (fun hzero => Population.returned_of_zero d b.trace hzero) (hb.snoc (List.mem_of_getElem? hd)) hrun
  · cases hrun
    exact herr _ _
  · next heq => split at heq <;> cases heq

end

theorem triple_enumerateAsKeyboard_dialogue {speed : Speed} {addr : UInt32} :
    Triple (fun b => Dialogue pop before [] b.trace) (enumerateAsKeyboard pop speed addr) (Enumerates pop) := by
  simp only [enumerateAsKeyboard, getDeviceDescriptor, setAddress, getConfigurationDescriptor, setConfiguration,
    bind_assoc, pure_bind]
  refine triple_asks .error fun desc _ => ?_
  refine triple_asks .error fun ack hack => ?_
  obtain rfl := hack rfl
  refine triple_asks .error fun header _ => ?_
  refine triple_asks .error fun cfg _ => ?_
  split
  · exact .throw fun b _ => .error _ b
  · next epNum epMps hfind =>
    refine triple_asks .error fun ack hack => ?_
    obtain rfl := hack rfl
    refine .pure fun b₁ hsaid kbd heq => ?_
    cases heq
    obtain ⟨ds, rest, rfl, hds, hrest⟩ := exists_descriptors cfg
    obtain ⟨k, d, hd, hk, hend, hfirst⟩ := (findHidKeyboardEndpoint_eq_some hds hrest).mp hfind
    exact ⟨before, desc, header, ds, rest, k, d, hsaid, hds, hrest, hd, hk, hfirst, rfl,
      (congrArg Prod.fst hend).symm, by rw [hend]⟩

/-- An enumeration, after any requests. -/
theorem triple_enumerateAsKeyboard_enumerates {speed : Speed} {addr : UInt32} :
    Triple (fun _ => True) (enumerateAsKeyboard pop speed addr) (Enumerates pop) :=
  fun _ _ _ _ hrun => triple_enumerateAsKeyboard_dialogue .nil hrun

theorem triple_findOnPorts_enumerates {n port : Nat} :
    Triple (fun _ => True) (findOnPorts pop hub n port) (Enumerates pop) := by
  induction n generalizing port with
  | zero => exact .throw fun b _ => .error _ b
  | succ n ih =>
      refine triple_true.attempt fun r => ?_
      split
      · refine triple_enumerateAsKeyboard_enumerates.attempt fun r => ?_
        split
        · next kbd =>
          refine .pure fun b h kbd' heq => ?_
          cases heq
          exact h kbd rfl
        · exact ih.mono (fun _ _ => trivial) fun _ _ h => h
      · exact ih

theorem triple_findKeyboard_enumerates {speed : Speed} :
    Triple (fun _ => True) (findKeyboard pop speed) (Enumerates pop) := by
  refine triple_true.bind (fun e b _ => .error e b) fun desc => ?_
  split
  · refine triple_true.bind (fun e b _ => .error e b) fun hub => ?_
    exact triple_true.bind (fun e b _ => .error e b) fun hubDesc => triple_findOnPorts_enumerates
  · exact triple_enumerateAsKeyboard_enumerates

variable {speed : Speed} {kbd : Keyboard} {b₀ : Bus}

end Ferro.Usb
