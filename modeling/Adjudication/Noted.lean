import Adjudication.Event

namespace Adjudication

inductive Notice
  | event (e : Event)
  | accusation (peer : Address) (offence : Offence)

/-- A result with the log events and accusations that were made on the way to it, in order. -/
structure Noted (α : Type) where
  value : α
  notices : List Notice

namespace Noted

instance : Monad Noted where
  pure a := ⟨a, []⟩
  bind x f :=
    let y := f x.value
    ⟨y.value, x.notices ++ y.notices⟩

variable {α β : Type}

@[simp] theorem value_pure (a : α) : (pure a : Noted α).value = a := rfl

@[simp] theorem notices_pure (a : α) : (pure a : Noted α).notices = [] := rfl

@[simp] theorem value_bind (x : Noted α) (f : α → Noted β) : (x >>= f).value = (f x.value).value := rfl

@[simp] theorem value_map (f : α → β) (x : Noted α) : (f <$> x).value = f x.value := rfl

@[simp] theorem notices_bind (x : Noted α) (f : α → Noted β) :
    (x >>= f).notices = x.notices ++ (f x.value).notices := rfl

@[simp] theorem notices_map (f : α → β) (x : Noted α) : (f <$> x).notices = x.notices :=
  List.append_nil _

instance : LawfulMonad Noted := LawfulMonad.mk' Noted
  (fun x => by show Noted.mk x.value (x.notices ++ []) = x; simp)
  (fun _ _ => rfl)
  (fun x f g => by
    show Noted.mk _ _ = Noted.mk _ _
    simp only [value_bind, notices_bind, List.append_assoc])

end Noted

def note (n : Notice) : Noted Unit := ⟨(), [n]⟩

def log (e : Event) : Noted Unit := note (.event e)

def accuse (peer : Address) (offence : Offence) : Noted Unit := note (.accusation peer offence)

/-- Logs an event only if there is something to say. -/
def logIf (c : Bool) (e : Event) : Noted Unit := if c then log e else pure ()

@[simp] theorem value_log (e : Event) : (log e).value = () := rfl

@[simp] theorem value_accuse (peer : Address) (offence : Offence) : (accuse peer offence).value = () := rfl

/-- The accusations among the notices. -/
def accusations (ns : List Notice) : List (Address × Offence) :=
  ns.filterMap fun
    | .event _ => none
    | .accusation peer offence => some (peer, offence)

end Adjudication
