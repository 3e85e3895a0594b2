import Mathlib.Data.List.Basic
import Mathlib.Data.List.Perm.Subperm

/-
  Focus and overlays of the terminal UI

  The component that gets the keys, the stack of overlays over the base content, and
  which overlay the focus goes back to after it was taken away.

  Correspondence (TypeScript ↔ Lean):
    packages/tui/src/tui.ts   OverlayStackEntry, OverlayFocusRestoreState, TUI   ↔ the types
                              setFocusInternal … isComponentMounted              ↔ same names
                              showOverlay, OverlayHandle, hideOverlay            ↔ same names
                              handleInput                                        ↔ `handleInput`

  An entry is an object that the stack, the handle and the restore state share: entries
  are numbered in the order they are shown, and the number is the handle. `handleInput`
  starts where a key has passed the listeners and the terminal's own replies. Rendering,
  the hardware cursor and the `focused` flag of a component have no part in where a key
  goes and are left out.
-/

namespace PieLab.Tui

/-- What is read of the options: whether the overlay leaves the focus alone, and when it
is visible. -/
structure OverlayOptions where
  nonCapturing : Bool
  visible : Option (Nat → Nat → Bool)

structure OverlayStackEntry (κ : Type) where
  component : κ
  options : OverlayOptions
  preFocus : Option κ
  hidden : Bool
  focusOrder : Nat

/-- What follows when a component that blocks an overlay lets the focus go. -/
inductive OverlayBlockedFocusResume (κ : Type) where
  | restoreOverlay
  | focusTarget (target : Option κ)

inductive OverlayFocusRestoreState (κ : Type) where
  | inactive
  | eligible (overlay : Nat)
  | blocked (overlay : Nat) (blockedBy : κ) (resume : OverlayBlockedFocusResume κ)

inductive OverlayFocusRestorePolicy where
  | clear | preserve
  deriving DecidableEq

/-- A component with the children it contains. -/
inductive Node (κ : Type) where
  | mk (component : κ) (children : List (Node κ))

structure TUI (κ : Type) where
  columns : Nat
  rows : Nat
  children : List (Node κ)
  focusedComponent : Option κ
  focusOrderCounter : Nat
  entries : List (OverlayStackEntry κ)
  overlayStack : List Nat
  overlayFocusRestore : OverlayFocusRestoreState κ

section Model
variable {κ : Type} [DecidableEq κ]

mutual
/-- `containsComponent(root, target)` -/
def containsComponent (target : κ) : Node κ → Bool
  | .mk component children => component == target || anyContains target children

/-- `children.some((child) => this.containsComponent(child, target))` -/
def anyContains (target : κ) : List (Node κ) → Bool
  | [] => false
  | child :: rest => containsComponent target child || anyContains target rest
end

namespace TUI
variable (s : TUI κ)

def isComponentMounted (component : κ) : Bool := anyContains component s.children

/-! ## The stack -/

def componentOf (overlay : Nat) : Option κ :=
  s.entries[overlay]?.map OverlayStackEntry.component

def preFocusOf (overlay : Nat) : Option κ :=
  s.entries[overlay]?.bind OverlayStackEntry.preFocus

/-- `isOverlayVisible(entry)` -/
def isEntryVisible (entry : OverlayStackEntry κ) : Bool :=
  if entry.hidden then false
  else match entry.options.visible with
    | some visible => visible s.columns s.rows
    | none => true

def isOverlayVisible (overlay : Nat) : Bool := s.entries[overlay]?.any s.isEntryVisible

def isNonCapturing (overlay : Nat) : Bool :=
  s.entries[overlay]?.any fun entry => entry.options.nonCapturing

def focusOrderOf (overlay : Nat) : Nat :=
  (s.entries[overlay]?.map OverlayStackEntry.focusOrder).getD 0

/-- `overlayStack.find((entry) => entry.component === component)` -/
def overlayOf (component : κ) : Option Nat :=
  s.overlayStack.find? fun overlay => s.componentOf overlay == some component

/-- The same, for visible overlays. -/
def visibleOverlayOf (component : κ) : Option Nat :=
  s.overlayStack.find? fun overlay =>
    s.componentOf overlay == some component && s.isOverlayVisible overlay

/-- One step of the loop of `getTopmostVisibleOverlay`. -/
def frontmost (topmost : Option Nat) (overlay : Nat) : Option Nat :=
  if s.isNonCapturing overlay || !s.isOverlayVisible overlay then topmost
  else match topmost with
    | none => some overlay
    | some top => if s.focusOrderOf overlay > s.focusOrderOf top then some overlay else topmost

def getTopmostVisibleOverlay : Option Nat := s.overlayStack.foldl s.frontmost none

/-! ## The restore state -/

def clearOverlayFocusRestore : TUI κ := { s with overlayFocusRestore := .inactive }

/-- `this.overlayFocusRestore.overlay`, when there is one. -/
def restoreOverlay? : Option Nat :=
  match s.overlayFocusRestore with
  | .inactive => none
  | .eligible overlay => some overlay
  | .blocked overlay _ _ => some overlay

def clearOverlayFocusRestoreFor (overlay : Nat) : TUI κ :=
  if s.restoreOverlay? = some overlay then s.clearOverlayFocusRestore else s

def getVisibleOverlayFocusRestore : OverlayFocusRestoreState κ :=
  match s.restoreOverlay? with
  | none => .inactive
  | some overlay =>
    if overlay ∈ s.overlayStack && s.isOverlayVisible overlay then s.overlayFocusRestore
    else .inactive

/-- The loop along the `preFocus` links; `visited` stops it on a cycle. -/
def focusAncestor (component : κ) : Nat → List κ → Option κ → Bool
  | _, _, none => false
  | 0, _, some _ => false
  | fuel + 1, visited, some current =>
    if current ∈ visited then false
    else if current = component then true
    else focusAncestor component fuel (current :: visited)
      ((s.overlayOf current).bind s.preFocusOf)

def isOverlayFocusAncestor (overlay : Nat) (component : κ) : Bool :=
  s.focusAncestor component (s.overlayStack.length + 1) [] (s.preFocusOf overlay)

/-! ## Moving the focus -/

def resolveBlockedOverlayFocusResume (overlay : Nat) :
    OverlayBlockedFocusResume κ → TUI κ × Option κ
  | .restoreOverlay => (s, s.componentOf overlay)
  | .focusTarget target => (s.clearOverlayFocusRestore, target)

/-- The overlay that had the focus waits until `next`, which took it, lets it go. -/
def blockPreviousOverlay (overlay : Nat) (next : κ) : TUI κ :=
  if s.focusedComponent.bind s.visibleOverlayOf = some overlay &&
      !s.isOverlayFocusAncestor overlay next then
    { s with overlayFocusRestore := .blocked overlay next .restoreOverlay }
  else s

/-- The focus asked for is a component that is no overlay. -/
def focusBase (next : κ) : TUI κ × Option κ :=
  match s.getVisibleOverlayFocusRestore with
  | .inactive => (s, some next)
  | .eligible overlay => (s.blockPreviousOverlay overlay next, some next)
  | .blocked overlay blockedBy resume =>
    if s.focusedComponent = some blockedBy then
      match resume with
      | .focusTarget _ => s.resolveBlockedOverlayFocusResume overlay resume
      | .restoreOverlay =>
        if s.isComponentMounted blockedBy then
          ({ s with overlayFocusRestore := .blocked overlay next resume }, some next)
        else s.resolveBlockedOverlayFocusResume overlay resume
    else (s.blockPreviousOverlay overlay next, some next)

/-- The focus asked for is `null`. -/
def focusNothing (policy : OverlayFocusRestorePolicy) : TUI κ × Option κ :=
  match s.getVisibleOverlayFocusRestore with
  | .blocked overlay blockedBy resume =>
    if s.focusedComponent = some blockedBy then s.resolveBlockedOverlayFocusResume overlay resume
    else if policy = .clear then (s.clearOverlayFocusRestore, none)
    else (s, none)
  | _ => if policy = .clear then (s.clearOverlayFocusRestore, none) else (s, none)

/-- Where the focus goes instead of `component`. -/
def nextFocus (component : Option κ) (policy : OverlayFocusRestorePolicy) : TUI κ × Option κ :=
  match component with
  | none => s.focusNothing policy
  | some next => if (s.overlayOf next).isSome then (s, some next) else s.focusBase next

/-- The end of `setFocusInternal`: a visible overlay with the focus gets it back later. -/
def giveFocus (component : Option κ) : TUI κ :=
  match component.bind s.visibleOverlayOf with
  | some overlay =>
    { s with focusedComponent := component, overlayFocusRestore := .eligible overlay }
  | none => { s with focusedComponent := component }

def setFocusInternal (component : Option κ) (policy : OverlayFocusRestorePolicy) : TUI κ :=
  (s.nextFocus component policy).1.giveFocus (s.nextFocus component policy).2

def setFocus (component : Option κ) : TUI κ := s.setFocusInternal component .clear

/-! ## Overlays -/

def updateEntry (overlay : Nat) (update : OverlayStackEntry κ → OverlayStackEntry κ) : TUI κ :=
  { s with entries := s.entries.modify overlay update }

/-- `entry.focusOrder = ++this.focusOrderCounter` -/
def bringToFront (overlay : Nat) : TUI κ :=
  { s.updateEntry overlay fun entry => { entry with focusOrder := s.focusOrderCounter + 1 } with
    focusOrderCounter := s.focusOrderCounter + 1 }

/-- Overlays that were opened from the removed one fall back to where it falls back. -/
def retargetOverlayPreFocus (removed : Nat) : TUI κ :=
  { s with
    entries := s.entries.mapIdx fun overlay entry =>
      if overlay ∈ s.overlayStack ∧ overlay ≠ removed ∧
          entry.preFocus = s.componentOf removed then
        { entry with preFocus := s.preFocusOf removed }
      else entry }

/-- `this.setFocus(topVisible?.component ?? entry.preFocus)` -/
def fallBack (overlay : Nat) : TUI κ :=
  match s.getTopmostVisibleOverlay with
  | some top => s.setFocus (s.componentOf top)
  | none => s.setFocus (s.preFocusOf overlay)

/-- An overlay that had the focus passes it on. -/
def releaseFocus (overlay : Nat) : TUI κ :=
  if s.focusedComponent = s.componentOf overlay then s.fallBack overlay else s

/-- The entry of an overlay that is shown. -/
def newEntry (component : κ) (options : OverlayOptions) : OverlayStackEntry κ where
  component := component
  options := options
  preFocus := s.focusedComponent
  hidden := false
  focusOrder := s.focusOrderCounter + 1

/-- `this.overlayStack.push(entry)` -/
def pushEntry (entry : OverlayStackEntry κ) : TUI κ :=
  { s with
    focusOrderCounter := s.focusOrderCounter + 1
    entries := s.entries ++ [entry]
    overlayStack := s.overlayStack ++ [s.entries.length] }

def showOverlay (component : κ) (options : OverlayOptions) : TUI κ :=
  let overlay := s.entries.length
  let s := s.pushEntry (s.newEntry component options)
  if !options.nonCapturing && s.isOverlayVisible overlay then s.setFocus (some component) else s

/-- What `hide` and `hideOverlay` share: `rest` is the stack without the overlay. -/
def removeOverlay (overlay : Nat) (rest : List Nat) : TUI κ :=
  let s := (s.clearOverlayFocusRestoreFor overlay).retargetOverlayPreFocus overlay
  { s with overlayStack := rest }.releaseFocus overlay

/-- `handle.hide()` -/
def hide (overlay : Nat) : TUI κ :=
  if overlay ∈ s.overlayStack then s.removeOverlay overlay (s.overlayStack.erase overlay) else s

def hideOverlay : TUI κ :=
  match s.overlayStack.getLast? with
  | none => s
  | some overlay => s.removeOverlay overlay s.overlayStack.dropLast

/-- `handle.setHidden(hidden)` -/
def setHidden (overlay : Nat) (hidden : Bool) : TUI κ :=
  match s.entries[overlay]? with
  | none => s
  | some entry =>
    if entry.hidden = hidden then s
    else
      let s := s.updateEntry overlay fun entry => { entry with hidden }
      if hidden then (s.clearOverlayFocusRestoreFor overlay).releaseFocus overlay
      else if !entry.options.nonCapturing && s.isOverlayVisible overlay then
        (s.bringToFront overlay).setFocus (some entry.component)
      else s

/-- `handle.focus()` -/
def focus (overlay : Nat) : TUI κ :=
  if overlay ∈ s.overlayStack && s.isOverlayVisible overlay then
    (s.bringToFront overlay).setFocus (s.componentOf overlay)
  else s

/-- The component the focus is released to without a target. -/
def fallbackTarget (overlay : Nat) : Option κ :=
  match s.getTopmostVisibleOverlay with
  | some top => if top ≠ overlay then s.componentOf top else s.preFocusOf overlay
  | none => s.preFocusOf overlay

/-- The component that has the focus and keeps the overlay waiting, if one does. -/
def blockerOf (overlay : Nat) : Option κ :=
  match s.overlayFocusRestore with
  | .blocked waiting blockedBy _ =>
    if waiting = overlay ∧ s.focusedComponent = some blockedBy then some blockedBy else none
  | _ => none

/-- `handle.unfocus(options)`; the options are a target, which may be `null`. -/
def unfocus (overlay : Nat) (unfocusOptions : Option (Option κ)) : TUI κ :=
  if s.focusedComponent ≠ s.componentOf overlay ∧ s.restoreOverlay? ≠ some overlay then s
  else match s.blockerOf overlay with
    | some blockedBy =>
      match unfocusOptions with
      | some target =>
        { s with overlayFocusRestore := .blocked overlay blockedBy (.focusTarget target) }
      | none => s.clearOverlayFocusRestore
    | none =>
      let t := s.clearOverlayFocusRestoreFor overlay
      match unfocusOptions with
      | some target => t.setFocus target
      | none =>
        if s.focusedComponent = s.componentOf overlay then t.setFocus (t.fallbackTarget overlay)
        else t

/-! ## Keys -/

/-- A focused overlay that is no longer visible passes the focus on. -/
def leaveHiddenOverlay : TUI κ :=
  match s.focusedComponent.bind s.overlayOf with
  | none => s
  | some overlay =>
    if s.isOverlayVisible overlay then s
    else match s.getTopmostVisibleOverlay with
      | some top => s.setFocus (s.componentOf top)
      | none => s.setFocusInternal (s.preFocusOf overlay) .preserve

/-- An overlay that the focus was taken from gets it back. -/
def restoreFocus : TUI κ :=
  if (s.focusedComponent.bind s.overlayOf).isSome then s
  else match s.getVisibleOverlayFocusRestore with
    | .inactive => s
    | .eligible overlay => s.setFocus (s.componentOf overlay)
    | .blocked overlay blockedBy resume =>
      if s.focusedComponent = some blockedBy then s
      else match resume with
        | .restoreOverlay => s.setFocus (s.componentOf overlay)
        | .focusTarget target => s.clearOverlayFocusRestore.setFocus target

/-- Where a key goes: to the focused component, if that takes it. -/
def handleInput (takes : κ → Bool) : TUI κ × Option κ :=
  let s := s.leaveHiddenOverlay.restoreFocus
  (s, s.focusedComponent.filter takes)

end TUI

end Model

end PieLab.Tui
