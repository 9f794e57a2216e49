import Ferrite.Core.Addr
import Ferrite.Lib.Lts
import Ferrite.Lib.Table

/-!
# Restarting in place

`core/src/handover.rs`: to become a new process the program executes its own binary again and
leaves the DNS and panel sockets open across it, named in an environment variable; the new image
serves on them.  A connection or a datagram that comes in between waits in the socket.

* `parse_render`, `handed_over_reads_back` — what is written of the sockets is read back;
* `image_has_its_sockets` — over every run of images: which sockets are open, and whose they are;
* `restart_drops_nothing` — over every run that keeps to its addresses, whatever comes to a
  socket of a role is received, in order and once, or waits in the socket, and the socket is
  there.
-/

namespace Ferrite.Handover

open Lts

/-! ## The variable -/

/-- `str::parse::<i32>`. -/
def parseI32 (s : Text) : Option ℤ :=
  let digits := if s.head? = some '-' ∨ s.head? = some '+' then s.tail else s
  if digits = [] ∨ !digits.all Char.isDigit then none
  else
    let magnitude : ℤ := Nat.ofDigitChars 10 digits 0
    let value := if s.head? = some '-' then -magnitude else magnitude
    if -2 ^ 31 ≤ value ∧ value < 2 ^ 31 then some value else none

/-- One pair of `parse`.  A descriptor is over 2, so it is kept as a natural number. -/
def parsePair (pair : Text) : Option (Text × ℕ) := do
  let (role, fd) ← pair.splitOnce '='
  let fd ← parseI32 fd.trim
  if role.trim ≠ [] ∧ 2 < fd then some (role.trim, fd.toNat) else none

def parse (value : Text) : List (Text × ℕ) := (value.splitOn ',').filterMap parsePair

def render (held : List (Text × ℕ)) : Text :=
  [','].intercalate (held.map fun e => e.1 ++ '=' :: decimal e.2)

/-- A role and a descriptor that can be written. -/
structure Proper (e : Text × ℕ) : Prop where
  role_ne_nil : e.1 ≠ []
  role_trim : e.1.trim = e.1
  no_comma : ',' ∉ e.1
  no_equals : '=' ∉ e.1
  fd : 2 < e.2 ∧ e.2 < 2 ^ 31

theorem digits_decimal (n : ℕ) : ∀ c ∈ decimal n, c.isDigit = true :=
  fun _ hc => Nat.isDigit_of_mem_toDigits (by omega) le_rfl hc

theorem plain_decimal (n : ℕ) : ∀ c ∈ decimal n, isWhitespace c = false ∧ c ≠ ',' := by
  intro c hc
  obtain ⟨hlow, hhigh⟩ : 48 ≤ c.toNat ∧ c.toNat ≤ 57 :=
    Char.isDigit_iff_toNat.1 (digits_decimal n c hc)
  constructor
  · simp only [isWhitespace, Bool.or_eq_false_iff, Bool.and_eq_false_iff, decide_eq_false_iff_not,
      beq_eq_false_iff_ne]
    omega
  · rintro rfl
    exact absurd hlow (by decide)

theorem parseI32_decimal {n : ℕ} (h : n < 2 ^ 31) : parseI32 (decimal n) = some (n : ℤ) := by
  have hsign : ∀ c, c.isDigit = false → (decimal n).head? ≠ some c := fun c hc hhead =>
    absurd (digits_decimal n c (List.mem_of_head? hhead)) (by simp [hc])
  have hall : (decimal n).all Char.isDigit = true := List.all_eq_true.2 (digits_decimal n)
  have hne : decimal n ≠ [] := Nat.toDigits_ne_nil
  have hvalue : Nat.ofDigitChars 10 (decimal n) 0 = n := Nat.ofDigitChars_ten_toDigits
  have hminus := hsign '-' rfl
  have hplus := hsign '+' rfl
  simp only [parseI32, hminus, hplus, or_self, if_false, hne, hall, Bool.not_true,
    Bool.false_eq_true, hvalue]
  rw [if_pos]
  omega

theorem parsePair_pair {e : Text × ℕ} (h : Proper e) :
    parsePair (e.1 ++ '=' :: decimal e.2) = some e := by
  have htrim : Text.trim (decimal e.2) = decimal e.2 :=
    Text.trim_of_forall fun c hc => (plain_decimal e.2 c hc).1
  have hfd : (2 : ℤ) < e.2 := by exact_mod_cast h.fd.1
  simp [parsePair, Text.splitOnce_append h.no_equals, htrim, parseI32_decimal h.fd.2, h.role_trim,
    h.role_ne_nil, hfd]

theorem mem_of_mem_trim {s : Text} {c : Char} (h : c ∈ s.trim) : c ∈ s := by
  have hrev := (List.dropWhile_sublist _).subset (List.mem_reverse.1 h)
  exact (List.dropWhile_sublist _).subset (List.mem_reverse.1 hrev)

theorem lt_of_parseI32 {s : Text} {n : ℤ} (h : parseI32 s = some n) : n < 2 ^ 31 := by
  simp only [parseI32, Option.ite_none_left_eq_some, Option.ite_none_right_eq_some] at h
  obtain ⟨-, hbounds, heq⟩ := h
  cases heq
  exact hbounds.2

/-- What is read of a pair can be written. -/
theorem proper_of_parsePair {pair : Text} {e : Text × ℕ} (hcomma : ',' ∉ pair)
    (h : parsePair pair = some e) : Proper e := by
  simp only [parsePair, Option.bind_eq_bind, Option.bind_eq_some_iff,
    Option.ite_none_right_eq_some] at h
  obtain ⟨⟨role, fd⟩, hcut, n, hread, ⟨hne, hlow⟩, heq⟩ := h
  cases heq
  obtain ⟨rfl, hequals⟩ := Text.splitOnce_eq_some_iff.1 hcut
  have hhigh := lt_of_parseI32 hread
  exact {
    role_ne_nil := hne
    role_trim := Text.trim_trim role
    no_comma := fun hmem => hcomma (List.mem_append_left _ (mem_of_mem_trim hmem))
    no_equals := fun hmem => hequals (mem_of_mem_trim hmem)
    fd := by omega }

theorem notMem_of_mem_splitOn {s part : Text} {c : Char} (h : part ∈ s.splitOn c) : c ∉ part := by
  induction s generalizing part with
  | nil =>
    rw [List.splitOn_nil, List.mem_singleton] at h
    simp [h]
  | cons d s ih =>
    rw [List.splitOn_cons_eq_if_modifyHead] at h
    split at h
    · obtain rfl | h := List.mem_cons.1 h
      · exact List.not_mem_nil
      · exact ih h
    · rename_i hne
      cases hparts : s.splitOn c with
      | nil => exact absurd hparts (List.splitOn_ne_nil c s)
      | cons first rest =>
        rw [hparts] at ih h
        obtain rfl | h := List.mem_cons.1 h
        · have hne' : c ≠ d := fun heq => hne (by simp [heq])
          simpa [hne'] using ih (List.mem_cons_self ..)
        · exact ih (List.mem_cons_of_mem _ h)

theorem proper_of_mem_parse {value : Text} {e : Text × ℕ} (h : e ∈ parse value) : Proper e := by
  obtain ⟨pair, hpair, hread⟩ := List.mem_filterMap.1 h
  exact proper_of_parsePair (notMem_of_mem_splitOn hpair) hread

/-- **The sockets read back.** -/
theorem parse_render {held : List (Text × ℕ)} (h : ∀ e ∈ held, Proper e) :
    parse (render held) = held := by
  cases held with
  | nil => rfl
  | cons e held =>
    have hcomma : ∀ pair ∈ (e :: held).map fun e => e.1 ++ '=' :: decimal e.2, ',' ∉ pair := by
      intro pair hpair hmem
      obtain ⟨e', he', rfl⟩ := List.mem_map.1 hpair
      obtain hmem | hmem := List.mem_append.1 hmem
      · exact (h e' he').no_comma hmem
      · obtain hmem | hmem := List.mem_cons.1 hmem
        · cases hmem
        · exact (plain_decimal e'.2 _ hmem).2 rfl
    rw [parse, render, List.splitOn_intercalate ',' hcomma (by simp), List.filterMap_map]
    have hread : ∀ e' ∈ e :: held,
        (parsePair ∘ fun e => e.1 ++ '=' :: decimal e.2) e' = some e' :=
      fun e' he' => parsePair_pair (h e' he')
    rw [List.filterMap_congr hread, List.filterMap_some]

/-- **What is handed over reads back.**  Whatever the variable holds, each pair that is read from
it has a role and a descriptor over 2, and writing the pairs and reading them again gives the
same. -/
theorem handed_over_reads_back (value : Text) :
    (∀ e ∈ parse value, Proper e) ∧ parse (render (parse value)) = parse value :=
  ⟨fun _ => proper_of_mem_parse, parse_render fun _ => proper_of_mem_parse⟩

/-! ## Images of the program -/

inductive Kind where
  | udp
  | tcp
deriving DecidableEq, Repr

/-- The sockets that are open until the process ends. -/
inductive Role where
  | dnsUdp
  | dnsTcp
  | api
deriving DecidableEq, Repr

def Role.name : Role → Text
  | .dnsUdp => "dns-udp".toList
  | .dnsTcp => "dns-tcp".toList
  | .api => "api".toList

theorem Role.name_injective : Function.Injective Role.name := by
  intro role role' h
  cases role <;> cases role' <;> first | rfl | exact absurd h (by decide)

def Role.kind : Role → Kind
  | .dnsUdp => .udp
  | .dnsTcp => .tcp
  | .api => .tcp

variable {Addr : Type}

/-- An open descriptor: where it listens, if it is a socket that does, and what waits in it. -/
structure File (Addr : Type) where
  port : Option (Kind × Addr)
  waiting : List ℕ
  cloexec : Bool
deriving DecidableEq, Repr

/-- The process, in one image after another. -/
structure Image (Addr : Type) where
  files : Table ℕ (File Addr)
  /-- `INHERITED` and `HELD`. -/
  inherited : List (Text × ℕ)
  held : List (Text × ℕ)
  exited : Bool
  /-- What came to a socket, what the program received of it, and what went with a socket. -/
  arrived : List ((Kind × Addr) × ℕ)
  received : List ((Kind × Addr) × ℕ)
  lost : List ((Kind × Addr) × ℕ)
  /-- The roles that were up in some image. -/
  begun : List Role

/-- `take`. -/
def take (inherited : List (Text × ℕ)) (role : Text) : Option (ℕ × List (Text × ℕ)) :=
  (inherited.find? fun e => e.1 = role).map fun e =>
    (e.2, inherited.eraseP fun e => e.1 = role)

/-- `set_cloexec`. -/
def setCloexec (files : Table ℕ (File Addr)) (fd : ℕ) (on : Bool) : Table ℕ (File Addr) :=
  files.updateWhere (fun k _ => k = fd) fun f => { f with cloexec := on }

variable {s s' : Image Addr} {fd : ℕ}

/-- Where a descriptor listens. -/
def Image.ports (s : Image Addr) (fd : ℕ) : Option (Option (Kind × Addr)) :=
  (s.files.lookup fd).map File.port

theorem ports_insert (s : Image Addr) (fd : ℕ) (f : File Addr) :
    Image.ports { s with files := s.files.insert fd f } =
      Function.update s.ports fd (some f.port) := by
  funext k
  rw [Image.ports, Table.lookup_insert_eq, Function.update_apply]
  split <;> rfl

theorem ports_erase (s : Image Addr) (fd : ℕ) :
    Image.ports { s with files := s.files.erase fd } = Function.update s.ports fd none := by
  funext k
  rw [Image.ports, Table.lookup_erase_eq, Function.update_apply]
  split <;> rfl

theorem lookup_setCloexec (files : Table ℕ (File Addr)) (fd : ℕ) (on : Bool) (k : ℕ) :
    (setCloexec files fd on).lookup k =
      (files.lookup k).map fun f => if k = fd then { f with cloexec := on } else f := by
  simp only [setCloexec, Table.lookup_updateWhere, decide_eq_true_eq]

theorem ports_setCloexec (s : Image Addr) (fd : ℕ) (on : Bool) :
    Image.ports { s with files := setCloexec s.files fd on } = s.ports := by
  funext k
  rw [Image.ports, lookup_setCloexec, Option.map_map, Image.ports]
  refine Option.map_congr fun f _ => ?_
  simp only [Function.comp_apply]
  split <;> rfl

theorem ports_eq_some_iff {x : Option (Kind × Addr)} :
    s.ports fd = some x ↔ ∃ f, s.files.lookup fd = some f ∧ f.port = x := by
  rw [Image.ports, Option.map_eq_some_iff]

theorem take_perm {inherited rest : List (Text × ℕ)} {name : Text}
    (h : take inherited name = some (fd, rest)) : inherited.Perm ((name, fd) :: rest) := by
  obtain ⟨⟨name', fd'⟩, hfind, heq⟩ := Option.map_eq_some_iff.1 h
  cases heq
  have hname : name' = name := by simpa using List.find?_some hfind
  subst hname
  clear h
  induction inherited with
  | nil => cases hfind
  | cons e inherited ih =>
    by_cases he : e.1 = name'
    · have hfound : e = (name', fd') := by simpa [he] using hfind
      simp [hfound]
    · rw [List.find?_cons_of_neg (by simpa using he)] at hfind
      rw [List.eraseP_cons_of_neg (by simpa using he)]
      exact ((ih hfind).cons e).trans (List.Perm.swap ..)

theorem notMem_of_take {inherited : List (Text × ℕ)} {name : Text}
    (h : take inherited name = none) : name ∉ inherited.map Prod.fst := by
  rw [take, Option.map_eq_none_iff, List.find?_eq_none] at h
  intro hmem
  obtain ⟨e, he, rfl⟩ := List.mem_map.1 hmem
  exact h e he (by simp)

namespace Image

/-- A first image: the service manager started it, with no sockets. -/
def first : Image Addr where
  files := (((∅ : Table ℕ (File Addr)).insert 0 ⟨none, [], false⟩).insert 1
    ⟨none, [], false⟩).insert 2 ⟨none, [], false⟩
  inherited := []
  held := []
  exited := false
  arrived := []
  received := []
  lost := []
  begun := []

/-- A socket that is dropped is closed, with what waits in it. -/
def close (s : Image Addr) (fd : ℕ) : Image Addr :=
  match s.files.lookup fd with
  | some f =>
    { s with
      files := s.files.erase fd
      lost := s.lost ++ (f.port.toList.flatMap fun p => f.waiting.map fun d => (p, d)) }
  | none => s

/-- `hold`, by the role that is up now. -/
def hold (s : Image Addr) (role : Role) (fd : ℕ) : Image Addr :=
  { s with
    held := (s.held.filter fun e => e.1 ≠ role.name) ++ [(role.name, fd)]
    begun := role :: s.begun }

variable [DecidableEq Addr]

/-- The socket that listens somewhere. -/
def listener (s : Image Addr) (p : Kind × Addr) : Option (ℕ × File Addr) :=
  (s.files.entries.find? fun e => e.2.port = some p).map fun e => (e.1, e.2)

/-- A new socket, unless someone has the address: the descriptor is the kernel's choice. -/
def bind (s : Image Addr) (role : Role) (addr : Addr) (free : Bool) (fresh : ℕ) :
    Option (Image Addr) :=
  if fresh ∈ s.files ∨ 2 ^ 31 ≤ fresh then none
  else if !free ∨ (s.listener (role.kind, addr)).isSome then some { s with exited := true }
  else some (hold { s with
    files := s.files.insert fresh ⟨some (role.kind, addr), [], true⟩ } role fresh)

/-- `take_udp` or `take_tcp`, a new socket where they give none, and `hold`. -/
def start (s : Image Addr) (role : Role) (addr : Addr) (nonblocking free : Bool) (fresh : ℕ) :
    Option (Image Addr) :=
  match take s.inherited role.name with
  | none => s.bind role addr free fresh
  | some (fd, rest) =>
    match s.files.lookup fd with
    | none => bind { s with inherited := rest } role addr free fresh
    | some f =>
      if f.port.map Prod.snd = some addr ∧ nonblocking then
        some (hold { s with inherited := rest, files := setCloexec s.files fd true } role fd)
      else (close { s with inherited := rest } fd).bind role addr free fresh

/-- `recv` or `accept` of a role. -/
def receive (s : Image Addr) (role : Role) : Option (Image Addr) := do
  let (_, fd) ← s.held.find? fun e => e.1 = role.name
  let f ← s.files.lookup fd
  match f.port, f.waiting with
  | some p, d :: rest =>
    some { s with
      files := s.files.insert fd { f with waiting := rest }
      received := s.received ++ [(p, d)] }
  | _, _ => none

/-- Something comes to an address; without a socket there it is refused. -/
def arrive (s : Image Addr) (p : Kind × Addr) (d : ℕ) : Image Addr :=
  match s.listener p with
  | some (fd, f) =>
    { s with
      files := s.files.insert fd { f with waiting := f.waiting ++ [d] }
      arrived := s.arrived ++ [(p, d)] }
  | none => s

/-- `restart`: the next image has the descriptors that stay open across `exec`. -/
def restart (s : Image Addr) (execs : Bool) : Image Addr :=
  if execs then
    { s with
      files := (s.held.foldl (fun files e => setCloexec files e.2 false) s.files).retain
        fun _ f => !f.cloexec
      inherited := parse (render s.held)
      held := [] }
  else { s with exited := true }

end Image

variable [DecidableEq Addr]

inductive Action (Addr : Type) where
  /-- A role comes up; whether `set_nonblocking` works, whether the address is no one else's. -/
  | start (role : Role) (addr : Addr) (nonblocking free : Bool) (fresh : ℕ)
  | arrive (p : Kind × Addr) (d : ℕ)
  | receive (role : Role)
  /-- Other descriptors come and go. -/
  | openFile (fd : ℕ) (cloexec : Bool)
  | closeFile (fd : ℕ)
  | restart (execs : Bool)
deriving DecidableEq

/-- The run of a process ends when it exits. -/
def step (s : Image Addr) (a : Action Addr) : Option (Image Addr) :=
  if s.exited then none
  else match a with
    | .start role addr nonblocking free fresh =>
      if role.name ∈ s.held.map Prod.fst then none else s.start role addr nonblocking free fresh
    | .arrive p d => some (s.arrive p d)
    | .receive role => s.receive role
    | .openFile fd cloexec =>
      if fd ∈ s.files ∨ 2 ^ 31 ≤ fd then none
      else some { s with files := s.files.insert fd ⟨none, [], cloexec⟩ }
    | .closeFile fd =>
      if 2 < fd ∧ (s.files.lookup fd).map File.port = some none then
        some { s with files := s.files.erase fd }
      else none
    | .restart execs => some (s.restart execs)

/-! ## What each step can do -/

variable {role : Role} {addr : Addr} {nonblocking free : Bool} {fresh : ℕ}

theorem listener_eq_some {p : Kind × Addr} {f : File Addr} (h : s.listener p = some (fd, f)) :
    s.files.lookup fd = some f ∧ f.port = some p := by
  obtain ⟨⟨k, g⟩, hfind, heq⟩ := Option.map_eq_some_iff.1 h
  cases heq
  exact ⟨Table.mem_entries_iff.1 (List.mem_of_find?_eq_some hfind),
    by simpa using List.find?_some hfind⟩

theorem listener_eq_none {p : Kind × Addr} (h : s.listener p = none) (fd : ℕ) :
    s.ports fd ≠ some (some p) := by
  rw [Image.listener, Option.map_eq_none_iff, List.find?_eq_none] at h
  intro hport
  obtain ⟨f, hf, hp⟩ := ports_eq_some_iff.1 hport
  exact h _ (Table.mem_entries_iff.2 hf) (by simp [hp])

theorem bind_cases (h : s.bind role addr free fresh = some s') :
    s.ports fresh = none ∧ fresh < 2 ^ 31 ∧
      ((free = false ∨ ∃ fd, s.ports fd = some (some (role.kind, addr))) ∧
          s' = { s with exited := true } ∨
        (∀ fd, s.ports fd ≠ some (some (role.kind, addr))) ∧
          s' = Image.hold { s with
            files := s.files.insert fresh ⟨some (role.kind, addr), [], true⟩ } role fresh) := by
  obtain ⟨hfresh, h⟩ := Option.ite_none_left_eq_some.1 h
  rw [not_or, Nat.not_le] at hfresh
  refine ⟨?_, hfresh.2, ?_⟩
  · rw [Image.ports, AList.lookup_eq_none.2 hfresh.1, Option.map_none]
  · split at h
    · rename_i htaken
      cases h
      refine .inl ⟨?_, rfl⟩
      obtain hfree | hsome := htaken
      · exact .inl (by simpa using hfree)
      · obtain ⟨⟨fd, f⟩, hlistens⟩ := Option.isSome_iff_exists.1 hsome
        obtain ⟨hf, hp⟩ := listener_eq_some hlistens
        exact .inr ⟨fd, ports_eq_some_iff.2 ⟨f, hf, hp⟩⟩
    · rename_i hfree
      cases h
      rw [not_or, Option.not_isSome_iff_eq_none] at hfree
      exact .inr ⟨listener_eq_none hfree.2, rfl⟩

theorem start_cases (h : s.start role addr nonblocking free fresh = some s') :
    (role.name ∉ s.inherited.map Prod.fst ∧ s.bind role addr free fresh = some s') ∨
      ∃ fd rest, s.inherited.Perm ((role.name, fd) :: rest) ∧
        ((∃ f, s.files.lookup fd = some f ∧ f.port.map Prod.snd = some addr ∧
            s' = Image.hold { s with
              inherited := rest, files := setCloexec s.files fd true } role fd) ∨
          ((∀ p, s.ports fd = some (some p) → p.2 = addr → nonblocking = false) ∧
            (Image.close { s with inherited := rest } fd).bind role addr free fresh =
              some s')) := by
  unfold Image.start at h
  split at h
  · rename_i htake
    exact .inl ⟨notMem_of_take htake, h⟩
  · rename_i fd rest htake
    refine .inr ⟨fd, rest, take_perm htake, ?_⟩
    split at h
    · rename_i hnone
      refine .inr ⟨?_, ?_⟩
      · intro p hp
        simp only [Image.ports, hnone] at hp
        cases hp
      · simpa only [Image.close, hnone] using h
    · rename_i f hf
      split at h
      · rename_i hkeep
        cases h
        exact .inl ⟨f, hf, hkeep.1, rfl⟩
      · rename_i hdrop
        refine .inr ⟨?_, h⟩
        intro p hp hpaddr
        obtain ⟨g, hg, hport⟩ := ports_eq_some_iff.1 hp
        rw [hf] at hg
        cases hg
        simpa [hport, hpaddr] using hdrop

/-! ## The sockets of an image -/

/-- The roles and descriptors of an image, up or handed over. -/
def Image.named (s : Image Addr) : List (Text × ℕ) := s.held ++ s.inherited

/-- The open sockets are those of the roles, each at a place of its own. -/
structure Placed (ports : ℕ → Option (Option (Kind × Addr))) (named : List (Text × ℕ)) :
    Prop where
  role : ∀ e ∈ named, ∃ role : Role, e.1 = role.name ∧
    ∃ addr, ports e.2 = some (some (role.kind, addr))
  names : (named.map Prod.fst).Nodup
  fds : (named.map Prod.snd).Nodup
  only : ∀ fd p, ports fd = some (some p) → fd ∈ named.map Prod.snd
  apart : ∀ fd fd' p, ports fd = some (some p) → ports fd' = some (some p) → fd = fd'
  bounded : ∀ fd x, ports fd = some x → fd < 2 ^ 31
  stdio : ∀ fd ≤ 2, ports fd = some none

section Placed

variable {ports ports' : ℕ → Option (Option (Kind × Addr))} {named named' : List (Text × ℕ)}

omit [DecidableEq Addr]

theorem Placed.perm (h : Placed ports named) (hperm : named.Perm named') : Placed ports named' where
  role e he := h.role e (hperm.mem_iff.2 he)
  names := (hperm.map Prod.fst).nodup_iff.1 h.names
  fds := (hperm.map Prod.snd).nodup_iff.1 h.fds
  only fd p hp := (hperm.map Prod.snd).mem_iff.1 (h.only fd p hp)
  apart := h.apart
  bounded := h.bounded
  stdio := h.stdio

/-- Other descriptors come and go. -/
theorem Placed.others (h : Placed ports named)
    (hports : ∀ fd p, ports' fd = some (some p) ↔ ports fd = some (some p))
    (hbounded : ∀ fd x, ports' fd = some x → fd < 2 ^ 31)
    (hstdio : ∀ fd ≤ 2, ports' fd = some none) : Placed ports' named where
  role e he := by
    obtain ⟨role, hname, addr, hport⟩ := h.role e he
    exact ⟨role, hname, addr, (hports _ _).2 hport⟩
  names := h.names
  fds := h.fds
  only fd p hp := h.only fd p ((hports fd p).1 hp)
  apart fd fd' p hp hp' := h.apart fd fd' p ((hports fd p).1 hp) ((hports fd' p).1 hp')
  bounded := hbounded
  stdio := hstdio

theorem Placed.add (h : Placed ports named) (hfresh : ports fresh = none) (hlow : fresh < 2 ^ 31)
    (hname : role.name ∉ named.map Prod.fst)
    (hfree : ∀ fd, ports fd ≠ some (some (role.kind, addr))) :
    Placed (Function.update ports fresh (some (some (role.kind, addr))))
      ((role.name, fresh) :: named) := by
  have hother : ∀ fd x, ports fd = some x → fd ≠ fresh := by
    rintro fd x hx rfl
    rw [hfresh] at hx
    cases hx
  have hfd : fresh ∉ named.map Prod.snd := by
    intro hmem
    obtain ⟨e, he, rfl⟩ := List.mem_map.1 hmem
    obtain ⟨role', -, addr', hport⟩ := h.role e he
    exact hother _ _ hport rfl
  refine ⟨?_, List.nodup_cons.2 ⟨hname, h.names⟩, List.nodup_cons.2 ⟨hfd, h.fds⟩, ?_, ?_, ?_, ?_⟩
  · intro e he
    obtain rfl | he := List.mem_cons.1 he
    · exact ⟨role, rfl, addr, Function.update_self ..⟩
    · obtain ⟨role', hname', addr', hport⟩ := h.role e he
      refine ⟨role', hname', addr', ?_⟩
      rw [Function.update_of_ne (hother _ _ hport), hport]
  · intro fd p hp
    rw [List.map_cons, List.mem_cons]
    rw [Function.update_apply] at hp
    split at hp
    · rename_i heq
      exact .inl heq
    · exact .inr (h.only fd p hp)
  · intro fd fd' p hp hp'
    rw [Function.update_apply] at hp hp'
    split at hp <;> split at hp'
    · rename_i heq heq'
      exact heq.trans heq'.symm
    · cases hp
      exact absurd hp' (hfree fd')
    · cases hp'
      exact absurd hp (hfree fd)
    · exact h.apart fd fd' p hp hp'
  · intro fd x hx
    rw [Function.update_apply] at hx
    split at hx
    · rename_i heq
      exact heq ▸ hlow
    · exact h.bounded fd x hx
  · intro fd hle
    rw [Function.update_of_ne (hother _ _ (h.stdio fd hle)), h.stdio fd hle]

theorem Placed.remove {e : Text × ℕ} (h : Placed ports (e :: named)) :
    Placed (Function.update ports e.2 none) named := by
  have hkeep : ∀ {fd x}, Function.update ports e.2 none fd = some x →
      fd ≠ e.2 ∧ ports fd = some x := by
    intro fd x hx
    rw [Function.update_apply] at hx
    split at hx
    · cases hx
    · rename_i hne
      exact ⟨hne, hx⟩
  obtain ⟨-, hnames⟩ := List.nodup_cons.1 h.names
  obtain ⟨hfd, hfds⟩ := List.nodup_cons.1 h.fds
  refine ⟨?_, hnames, hfds, ?_, ?_, ?_, ?_⟩
  · intro e' he'
    obtain ⟨role, hname, addr, hport⟩ := h.role e' (List.mem_cons_of_mem _ he')
    have hne : e'.2 ≠ e.2 := fun heq => hfd (heq ▸ List.mem_map_of_mem he')
    exact ⟨role, hname, addr, by rw [Function.update_of_ne hne, hport]⟩
  · intro fd p hp
    obtain ⟨hne, hp⟩ := hkeep hp
    exact (List.mem_cons.1 (h.only fd p hp)).resolve_left hne
  · intro fd fd' p hp hp'
    exact h.apart fd fd' p (hkeep hp).2 (hkeep hp').2
  · intro fd x hx
    exact h.bounded fd x (hkeep hx).2
  · intro fd hle
    obtain ⟨role, -, addr, hport⟩ := h.role e (List.mem_cons_self ..)
    have hne : fd ≠ e.2 := by
      rintro rfl
      rw [h.stdio _ hle] at hport
      cases hport
    rw [Function.update_of_ne hne, h.stdio fd hle]

/-- What an image has of sockets can be written. -/
theorem Placed.proper (h : Placed ports named) {e : Text × ℕ} (he : e ∈ named) : Proper e := by
  obtain ⟨role, hname, addr, hport⟩ := h.role e he
  have hlow : 2 < e.2 := by
    by_contra hle
    rw [h.stdio e.2 (Nat.not_lt.1 hle)] at hport
    cases hport
  have hrole : role.name ≠ [] ∧ role.name.trim = role.name ∧ ',' ∉ role.name ∧
      '=' ∉ role.name := by
    cases role <;> decide
  rw [← hname] at hrole
  exact ⟨hrole.1, hrole.2.1, hrole.2.2.1, hrole.2.2.2, hlow, h.bounded _ _ hport⟩

end Placed

/-! ## What holds between the steps -/

/-- A socket that is up is not left to a child, and one that was handed over is until its role
takes it. -/
structure Inv (s : Image Addr) : Prop where
  placed : Placed s.ports s.named
  held : ∀ e ∈ s.held, ∀ f, s.files.lookup e.2 = some f → f.cloexec = true
  inherited : ∀ e ∈ s.inherited, ∀ f, s.files.lookup e.2 = some f → f.cloexec = false
  stdio : ∀ fd ≤ 2, ∀ f, s.files.lookup fd = some f → f.cloexec = false
  running : s.exited = false

/-- A role's address is no one else's, and the program restarts once its roles are up. -/
def Orderly (s : Image Addr) : Action Addr → Prop
  | .start role addr _ free _ =>
    free = true ∧ ∀ e ∈ s.named, e.1 ≠ role.name → s.ports e.2 ≠ some (some (role.kind, addr))
  | .restart execs => execs = true ∧ s.inherited = []
  | _ => True

omit [DecidableEq Addr] in
theorem Inv.first : Inv (Image.first : Image Addr) where
  placed := by
    have hports : ∀ fd, (Image.first : Image Addr).ports fd =
        if fd ≤ 2 then some none else none := by
      intro fd
      simp only [Image.ports, Image.first, Table.lookup_insert_eq, AList.lookup_empty]
      split
      · rename_i h
        simp [h]
      · split
        · rename_i h
          simp [h]
        · split
          · rename_i h
            simp [h]
          · rw [if_neg (by omega)]
            rfl
    refine ⟨by simp [Image.named, Image.first], List.nodup_nil, List.nodup_nil, ?_, ?_, ?_, ?_⟩
    · intro fd p hp
      rw [hports] at hp
      split at hp <;> cases hp
    · intro fd fd' p hp
      rw [hports] at hp
      split at hp <;> cases hp
    · intro fd x hx
      rw [hports] at hx
      split at hx
      · omega
      · cases hx
    · intro fd hle
      rw [hports, if_pos hle]
  held := nofun
  inherited := nofun
  stdio fd hle f hf := by
    simp only [Image.first, Table.lookup_insert_eq, AList.lookup_empty] at hf
    split at hf
    · cases hf
      rfl
    · split at hf
      · cases hf
        rfl
      · split at hf
        · cases hf
          rfl
        · cases hf
  running := rfl

omit [DecidableEq Addr] in
theorem held_hold (hname : role.name ∉ s.held.map Prod.fst) :
    (s.hold role fd).held = s.held ++ [(role.name, fd)] := by
  have hall : s.held.filter (fun e => e.1 ≠ role.name) = s.held := by
    rw [List.filter_eq_self]
    intro e he
    simpa using fun heq : e.1 = role.name => hname (heq ▸ List.mem_map_of_mem he)
  rw [Image.hold, hall]

omit [DecidableEq Addr] in
theorem named_hold (hname : role.name ∉ s.held.map Prod.fst) :
    (s.hold role fd).named.Perm ((role.name, fd) :: s.named) := by
  have hinherited : (s.hold role fd).inherited = s.inherited := rfl
  rw [Image.named, held_hold hname, hinherited, List.append_assoc]
  exact List.perm_middle

omit [DecidableEq Addr] in
/-- A role comes up on a new socket. -/
theorem Inv.bound (h : Inv s) (hfresh : s.ports fresh = none) (hlow : fresh < 2 ^ 31)
    (hname : role.name ∉ s.named.map Prod.fst)
    (hfree : ∀ fd, s.ports fd ≠ some (some (role.kind, addr))) :
    Inv (Image.hold { s with
      files := s.files.insert fresh ⟨some (role.kind, addr), [], true⟩ } role fresh) := by
  have hheld : role.name ∉ s.held.map Prod.fst := fun hmem => hname (by
    rw [Image.named, List.map_append]
    exact List.mem_append_left _ hmem)
  have hother : ∀ {k f}, s.files.lookup k = some f → k ≠ fresh := by
    rintro k f hf rfl
    simp [Image.ports, hf] at hfresh
  refine ⟨?_, ?_, ?_, ?_, h.running⟩
  · have hports := ports_insert s fresh ⟨some (role.kind, addr), [], true⟩
    exact (hports ▸ h.placed.add hfresh hlow hname hfree).perm
      (@named_hold _ { s with files := s.files.insert fresh _ } _ _ hheld).symm
  · intro e he f hf
    rw [@held_hold _ { s with files := s.files.insert fresh _ } _ _ hheld] at he
    have hf' : (s.files.insert fresh ⟨some (role.kind, addr), [], true⟩).lookup e.2 = some f := hf
    rw [Table.lookup_insert_eq] at hf'
    split at hf'
    · cases hf'
      rfl
    · rename_i hne
      obtain he | he := List.mem_append.1 he
      · exact h.held e he f hf'
      · rw [List.mem_singleton.1 he] at hne
        exact absurd rfl hne
  · intro e he f hf
    have hf' : (s.files.insert fresh ⟨some (role.kind, addr), [], true⟩).lookup e.2 = some f := hf
    obtain ⟨role', -, addr', hport⟩ := h.placed.role e (List.mem_append_right _ he)
    obtain ⟨g, hg, -⟩ := ports_eq_some_iff.1 hport
    rw [Table.lookup_insert_eq, if_neg (hother hg)] at hf'
    exact h.inherited e he f hf'
  · intro k hk f hf
    have hf' : (s.files.insert fresh ⟨some (role.kind, addr), [], true⟩).lookup k = some f := hf
    obtain ⟨g, hg, -⟩ := ports_eq_some_iff.1 (h.placed.stdio k hk)
    rw [Table.lookup_insert_eq, if_neg (hother hg)] at hf'
    exact h.stdio k hk f hf'

section Taking

variable {rest : List (Text × ℕ)} {f : File Addr}

omit [DecidableEq Addr]

/-- The role's own pair, and the others. -/
theorem Inv.split_named (h : Inv s) (hperm : s.inherited.Perm ((role.name, fd) :: rest)) :
    Placed s.ports ((role.name, fd) :: (s.held ++ rest)) :=
  h.placed.perm ((hperm.append_left s.held).trans List.perm_middle)

theorem Inv.ne_of_mem (h : Inv s) (hperm : s.inherited.Perm ((role.name, fd) :: rest))
    {e : Text × ℕ} (he : e ∈ s.held ++ rest) : e.2 ≠ fd := by
  intro heq
  refine (List.nodup_cons.1 (h.split_named hperm).fds).1 ?_
  exact List.mem_map.2 ⟨e, he, heq⟩

theorem Inv.not_stdio (h : Inv s) (hperm : s.inherited.Perm ((role.name, fd) :: rest))
    {k : ℕ} (hk : k ≤ 2) : k ≠ fd := by
  rintro rfl
  obtain ⟨role', -, addr', hport⟩ := (h.split_named hperm).role _ (List.mem_cons_self ..)
  rw [h.placed.stdio _ hk] at hport
  cases hport

/-- A socket that was handed over is closed. -/
theorem Inv.closed (h : Inv s) (hperm : s.inherited.Perm ((role.name, fd) :: rest)) :
    Inv (Image.close { s with inherited := rest } fd) := by
  obtain ⟨role', -, addr', hport⟩ := (h.split_named hperm).role _ (List.mem_cons_self ..)
  obtain ⟨g, hg, -⟩ := ports_eq_some_iff.1 hport
  have hclose : Image.close { s with inherited := rest } fd =
      { s with
        inherited := rest
        files := s.files.erase fd
        lost := s.lost ++ (g.port.toList.flatMap fun p => g.waiting.map fun d => (p, d)) } := by
    simp only [Image.close, hg]
  have hlookup : ∀ {k f}, (s.files.erase fd).lookup k = some f → s.files.lookup k = some f := by
    intro k f hf
    rw [Table.lookup_erase_eq] at hf
    split at hf
    · cases hf
    · exact hf
  rw [hclose]
  refine ⟨?_, fun e he f hf => h.held e he f (hlookup hf), fun e he f hf => ?_,
    fun k hk f hf => h.stdio k hk f (hlookup hf), h.running⟩
  · have hports := ports_erase s fd
    exact hports ▸ (h.split_named hperm).remove
  · exact h.inherited e (hperm.mem_iff.2 (List.mem_cons_of_mem _ he)) f (hlookup hf)

/-- A role takes its socket. -/
theorem Inv.taken (h : Inv s) (hperm : s.inherited.Perm ((role.name, fd) :: rest))
    (hheld : role.name ∉ s.held.map Prod.fst) :
    Inv (Image.hold { s with inherited := rest, files := setCloexec s.files fd true } role fd) := by
  have hheld' := @held_hold _ { s with inherited := rest, files := setCloexec s.files fd true }
    fd _ hheld
  have hlookup : ∀ {k f}, (setCloexec s.files fd true).lookup k = some f →
      (k = fd ∧ f.cloexec = true) ∨ (k ≠ fd ∧ s.files.lookup k = some f) := by
    intro k f hf
    rw [lookup_setCloexec] at hf
    obtain ⟨g, hg, heq⟩ := Option.map_eq_some_iff.1 hf
    split at heq
    · rename_i hk
      cases heq
      exact .inl ⟨hk, rfl⟩
    · rename_i hk
      cases heq
      exact .inr ⟨hk, hg⟩
  refine ⟨?_, fun e he f hf => ?_, fun e he f hf => ?_, fun k hk f hf => ?_, h.running⟩
  · have hports := ports_setCloexec s fd true
    exact (hports ▸ h.split_named hperm : Placed (Image.ports { s with
      files := setCloexec s.files fd true }) _).perm (@named_hold _ { s with
        inherited := rest, files := setCloexec s.files fd true } fd _ hheld).symm
  · rw [hheld'] at he
    obtain ⟨-, htrue⟩ | ⟨hne, hf⟩ := hlookup hf
    · exact htrue
    · obtain he | he := List.mem_append.1 he
      · exact h.held e he f hf
      · rw [List.mem_singleton.1 he] at hne
        exact absurd rfl hne
  · obtain ⟨rfl, -⟩ | ⟨-, hf⟩ := hlookup hf
    · exact absurd rfl (h.ne_of_mem hperm (List.mem_append_right _ he))
    · exact h.inherited e (hperm.mem_iff.2 (List.mem_cons_of_mem _ he)) f hf
  · obtain ⟨rfl, -⟩ | ⟨-, hf⟩ := hlookup hf
    · exact absurd rfl (h.not_stdio hperm hk)
    · exact h.stdio k hk f hf

end Taking

section Restarting

omit [DecidableEq Addr]

theorem lookup_foldl_setCloexec (held : List (Text × ℕ)) (files : Table ℕ (File Addr)) (on : Bool)
    (k : ℕ) :
    (held.foldl (fun files e => setCloexec files e.2 on) files).lookup k =
      (files.lookup k).map fun f =>
        if k ∈ held.map Prod.snd then { f with cloexec := on } else f := by
  induction held generalizing files with
  | nil => simp
  | cons e held ih =>
    rw [List.foldl_cons, ih, lookup_setCloexec, Option.map_map]
    refine Option.map_congr fun f _ => ?_
    by_cases hk : k = e.2
    · simp [hk]
    · rw [Function.comp_apply, if_neg hk, List.map_cons]
      simp only [List.mem_cons, hk, false_or]

/-- What the next image has: the sockets that were held, and what else stays open. -/
theorem lookup_restart {f : File Addr} :
    (s.restart true).files.lookup fd = some f ↔ ∃ g, s.files.lookup fd = some g ∧
      ((fd ∈ s.held.map Prod.snd ∧ f = { g with cloexec := false }) ∨
        (fd ∉ s.held.map Prod.snd ∧ g.cloexec = false ∧ f = g)) := by
  simp only [Image.restart, if_true, Table.lookup_retain, lookup_foldl_setCloexec,
    Option.filter_eq_some_iff, Option.map_eq_some_iff]
  constructor
  · rintro ⟨⟨g, hg, rfl⟩, hkeep⟩
    refine ⟨g, hg, ?_⟩
    by_cases hfd : fd ∈ s.held.map Prod.snd
    · exact .inl ⟨hfd, if_pos hfd⟩
    · rw [if_neg hfd] at hkeep ⊢
      exact .inr ⟨hfd, by simpa using hkeep, rfl⟩
  · rintro ⟨g, hg, ⟨hfd, rfl⟩ | ⟨hfd, hcloexec, rfl⟩⟩
    · exact ⟨⟨g, hg, if_pos hfd⟩, rfl⟩
    · exact ⟨⟨f, hg, if_neg hfd⟩, by simp [hcloexec]⟩

theorem ports_restart (h : Inv s) (hinherited : s.inherited = []) {p : Kind × Addr} :
    (s.restart true).ports fd = some (some p) ↔ s.ports fd = some (some p) := by
  simp only [ports_eq_some_iff, lookup_restart]
  constructor
  · rintro ⟨f, ⟨g, hg, ⟨-, rfl⟩ | ⟨-, -, rfl⟩⟩, hp⟩
    · exact ⟨g, hg, hp⟩
    · exact ⟨f, hg, hp⟩
  · rintro ⟨g, hg, hp⟩
    have hnamed := h.placed.only fd p (ports_eq_some_iff.2 ⟨g, hg, hp⟩)
    rw [Image.named, hinherited, List.append_nil] at hnamed
    exact ⟨_, ⟨g, hg, .inl ⟨hnamed, rfl⟩⟩, hp⟩

/-- The next image is handed what was held. -/
theorem inherited_restart (h : Inv s) : (s.restart true).inherited = s.held :=
  parse_render fun _ he => h.placed.proper (List.mem_append_left _ he)

theorem Inv.restart (h : Inv s) (hinherited : s.inherited = []) : Inv (s.restart true) := by
  have hread := inherited_restart h
  have hnamed : (s.restart true).named = s.named := by
    rw [Image.named, hread, Image.named, hinherited, List.append_nil]
    rfl
  refine ⟨?_, nofun, fun e he f hf => ?_, fun k hk f hf => ?_, h.running⟩
  · rw [hnamed]
    refine h.placed.others (fun fd p => ports_restart h hinherited) (fun fd x hx => ?_)
      (fun k hk => ?_)
    · obtain ⟨f, hf, -⟩ := ports_eq_some_iff.1 hx
      obtain ⟨g, hg, -⟩ := lookup_restart.1 hf
      exact h.placed.bounded fd g.port (ports_eq_some_iff.2 ⟨g, hg, rfl⟩)
    · obtain ⟨g, hg, hp⟩ := ports_eq_some_iff.1 (h.placed.stdio k hk)
      refine ports_eq_some_iff.2
        ⟨g, lookup_restart.2 ⟨g, hg, .inr ⟨?_, h.stdio k hk g hg, rfl⟩⟩, hp⟩
      intro hmem
      obtain ⟨e, he, rfl⟩ := List.mem_map.1 hmem
      exact absurd (h.placed.proper (List.mem_append_left _ he)).fd.1 (Nat.not_lt.2 hk)
  · rw [hread] at he
    obtain ⟨g, hg, ⟨-, rfl⟩ | ⟨hfd, -⟩⟩ := lookup_restart.1 hf
    · rfl
    · exact absurd (List.mem_map_of_mem he) hfd
  · obtain ⟨g, hg, ⟨-, rfl⟩ | ⟨-, hcloexec, rfl⟩⟩ := lookup_restart.1 hf
    · rfl
    · exact hcloexec

end Restarting

omit [DecidableEq Addr] in
theorem named_close (s : Image Addr) (fd : ℕ) : (s.close fd).named = s.named := by
  unfold Image.close
  split <;> rfl

omit [DecidableEq Addr] in
theorem ports_close (s : Image Addr) (fd : ℕ) :
    (s.close fd).ports = Function.update s.ports fd none := by
  unfold Image.close
  split
  · exact ports_erase s fd
  · rename_i hnone
    rw [eq_comm, Function.update_eq_self_iff, Image.ports, hnone, Option.map_none]

omit [DecidableEq Addr] in
/-- What waits in a socket changes. -/
theorem Inv.requeue (h : Inv s) {f : File Addr} (hf : s.files.lookup fd = some f)
    (waiting : List ℕ) (arrived received : List ((Kind × Addr) × ℕ)) :
    Inv { s with
      files := s.files.insert fd { f with waiting := waiting }
      arrived := arrived
      received := received } := by
  have hports : Image.ports { s with files := s.files.insert fd { f with waiting := waiting } } =
      s.ports := by
    rw [ports_insert, Function.update_eq_self_iff, Image.ports, hf, Option.map_some]
  have hflag : ∀ {k g}, (s.files.insert fd { f with waiting := waiting }).lookup k = some g →
      ∃ g', s.files.lookup k = some g' ∧ g.cloexec = g'.cloexec := by
    intro k g hg
    rw [Table.lookup_insert_eq] at hg
    split at hg
    · rename_i hk
      cases hg
      exact ⟨f, hk ▸ hf, rfl⟩
    · exact ⟨g, hg, rfl⟩
  refine ⟨hports ▸ h.placed, fun e he g hg => ?_, fun e he g hg => ?_, fun k hk g hg => ?_,
    h.running⟩
  · obtain ⟨g', hg', heq⟩ := hflag hg
    exact heq.trans (h.held e he g' hg')
  · obtain ⟨g', hg', heq⟩ := hflag hg
    exact heq.trans (h.inherited e he g' hg')
  · obtain ⟨g', hg', heq⟩ := hflag hg
    exact heq.trans (h.stdio k hk g' hg')

omit [DecidableEq Addr] in
/-- A descriptor that is no socket of ours is opened. -/
theorem Inv.opened (h : Inv s) (hfresh : fd ∉ s.files) (hlow : fd < 2 ^ 31) (cloexec : Bool) :
    Inv { s with files := s.files.insert fd ⟨none, [], cloexec⟩ } := by
  have hnone := AList.lookup_eq_none.2 hfresh
  have hother : ∀ {k x}, s.ports k = some x → k ≠ fd := by
    rintro k x hx rfl
    simp [Image.ports, hnone] at hx
  have hflag : ∀ {k g x}, s.ports k = some x →
      (s.files.insert fd ⟨none, [], cloexec⟩).lookup k = some g → s.files.lookup k = some g := by
    intro k g x hx hg
    rwa [Table.lookup_insert_eq, if_neg (hother hx)] at hg
  refine ⟨?_, fun e he g hg => ?_, fun e he g hg => ?_, fun k hk g hg => ?_, h.running⟩
  · rw [ports_insert]
    refine h.placed.others (fun k p => ?_) (fun k x hx => ?_) (fun k hk => ?_)
    · rw [Function.update_apply]
      split
      · rename_i hk
        rw [hk, Image.ports, hnone]
        simp
      · exact Iff.rfl
    · rw [Function.update_apply] at hx
      split at hx
      · rename_i hk
        exact hk ▸ hlow
      · exact h.placed.bounded k x hx
    · rw [Function.update_of_ne (hother (h.placed.stdio k hk)), h.placed.stdio k hk]
  · obtain ⟨role, -, addr, hport⟩ := h.placed.role e (List.mem_append_left _ he)
    exact h.held e he g (hflag hport hg)
  · obtain ⟨role, -, addr, hport⟩ := h.placed.role e (List.mem_append_right _ he)
    exact h.inherited e he g (hflag hport hg)
  · exact h.stdio k hk g (hflag (h.placed.stdio k hk) hg)

omit [DecidableEq Addr] in
theorem Inv.closedFile (h : Inv s) (hlow : 2 < fd) (hport : s.ports fd = some none) :
    Inv { s with files := s.files.erase fd } := by
  have hflag : ∀ {k g}, (s.files.erase fd).lookup k = some g → s.files.lookup k = some g := by
    intro k g hg
    rw [Table.lookup_erase_eq] at hg
    split at hg
    · cases hg
    · exact hg
  refine ⟨?_, fun e he g hg => h.held e he g (hflag hg),
    fun e he g hg => h.inherited e he g (hflag hg), fun k hk g hg => h.stdio k hk g (hflag hg),
    h.running⟩
  rw [ports_erase]
  refine h.placed.others (fun k p => ?_) (fun k x hx => ?_) (fun k hk => ?_)
  · rw [Function.update_apply]
    split
    · rename_i hk
      rw [hk, hport]
      simp
    · exact Iff.rfl
  · rw [Function.update_apply] at hx
    split at hx
    · cases hx
    · exact h.placed.bounded k x hx
  · rw [Function.update_of_ne (Nat.ne_of_lt (Nat.lt_of_le_of_lt hk hlow)), h.placed.stdio k hk]

/-- A new socket is had when no role of this image listens there. -/
theorem bind_of_free (h : Inv s)
    (hfree : ∀ e ∈ s.named, s.ports e.2 ≠ some (some (role.kind, addr)))
    (hstep : s.bind role addr true fresh = some s') :
    s.ports fresh = none ∧ fresh < 2 ^ 31 ∧ (∀ fd, s.ports fd ≠ some (some (role.kind, addr))) ∧
      s' = Image.hold { s with
        files := s.files.insert fresh ⟨some (role.kind, addr), [], true⟩ } role fresh := by
  have hnowhere : ∀ fd, s.ports fd ≠ some (some (role.kind, addr)) := by
    intro fd hport
    obtain ⟨e, he, rfl⟩ := List.mem_map.1 (h.placed.only fd _ hport)
    exact hfree e he hport
  obtain ⟨hfresh, hlow, ⟨htaken, -⟩ | ⟨-, heq⟩⟩ := bind_cases hstep
  · obtain hfalse | ⟨fd, hport⟩ := htaken
    · cases hfalse
    · exact absurd hport (hnowhere fd)
  · exact ⟨hfresh, hlow, hnowhere, heq⟩

/-- **A role comes up.**  It has the socket that was handed over, or a new one. -/
theorem start_of_orderly (h : Inv s) (hheld : role.name ∉ s.held.map Prod.fst)
    (hfree : ∀ e ∈ s.named, e.1 ≠ role.name → s.ports e.2 ≠ some (some (role.kind, addr)))
    (hstep : s.start role addr nonblocking true fresh = some s') :
    (∃ fd rest f, s.inherited.Perm ((role.name, fd) :: rest) ∧ s.files.lookup fd = some f ∧
        f.port = some (role.kind, addr) ∧
        s' = Image.hold { s with
          inherited := rest, files := setCloexec s.files fd true } role fd) ∨
      ∃ t : Image Addr, Inv t ∧ role.name ∉ t.named.map Prod.fst ∧
        t.ports fresh = none ∧ fresh < 2 ^ 31 ∧
        (∀ fd, t.ports fd ≠ some (some (role.kind, addr))) ∧
        s' = Image.hold { t with
          files := t.files.insert fresh ⟨some (role.kind, addr), [], true⟩ } role fresh ∧
        (t = s ∨ ∃ fd rest, s.inherited.Perm ((role.name, fd) :: rest) ∧
          (∀ p, s.ports fd = some (some p) → p.2 = addr → nonblocking = false) ∧
          t = Image.close { s with inherited := rest } fd) := by
  obtain ⟨hnone, hbind⟩ | ⟨fd, rest, hperm, ⟨f, hf, haddr, heq⟩ | ⟨hdrop, hbind⟩⟩ :=
    start_cases hstep
  · have hname : role.name ∉ s.named.map Prod.fst := by
      rw [Image.named, List.map_append, List.mem_append, not_or]
      exact ⟨hheld, hnone⟩
    have hfree' : ∀ e ∈ s.named, s.ports e.2 ≠ some (some (role.kind, addr)) :=
      fun e he => hfree e he fun heq => hname (heq ▸ List.mem_map_of_mem he)
    obtain ⟨hfresh, hlow, hnowhere, heq⟩ := bind_of_free h hfree' hbind
    exact .inr ⟨s, h, hname, hfresh, hlow, hnowhere, heq, .inl rfl⟩
  · obtain ⟨role', hname', addr', hport⟩ := (h.split_named hperm).role _ (List.mem_cons_self ..)
    obtain rfl : role = role' := Role.name_injective hname'
    obtain ⟨g, hg, hgport⟩ := ports_eq_some_iff.1 hport
    rw [hf] at hg
    cases hg
    refine .inl ⟨fd, rest, f, hperm, hf, ?_, heq⟩
    rw [hgport] at haddr
    rw [hgport, ← Option.some.inj haddr]
  · have hclosed := h.closed hperm
    have hnamed : (Image.close { s with inherited := rest } fd).named = s.held ++ rest :=
      named_close _ _
    have hname : role.name ∉ (Image.close { s with inherited := rest } fd).named.map Prod.fst := by
      rw [hnamed]
      exact (List.nodup_cons.1 (h.split_named hperm).names).1
    have hfree' : ∀ e ∈ (Image.close { s with inherited := rest } fd).named,
        (Image.close { s with inherited := rest } fd).ports e.2 ≠
          some (some (role.kind, addr)) := by
      intro e he hport
      have he' : e ∈ s.named := by
        rw [hnamed] at he
        exact ((hperm.append_left s.held).trans List.perm_middle).mem_iff.2
          (List.mem_cons_of_mem _ he)
      rw [ports_close, Function.update_apply] at hport
      split at hport
      · cases hport
      · exact hfree e he' (fun heq => hname (heq ▸ List.mem_map_of_mem he)) hport
    obtain ⟨hfresh, hlow, hnowhere, heq⟩ := bind_of_free hclosed hfree' hbind
    exact .inr ⟨_, hclosed, hname, hfresh, hlow, hnowhere, heq, .inr ⟨fd, rest, hperm, hdrop, rfl⟩⟩

theorem inv_step {a : Action Addr} (h : Inv s) (hok : Orderly s a) (hstep : step s a = some s') :
    Inv s' := by
  obtain ⟨-, hstep⟩ := Option.ite_none_left_eq_some.1 hstep
  cases a with
  | start role addr nonblocking free fresh =>
    obtain ⟨hheld, hstep⟩ := Option.ite_none_left_eq_some.1 hstep
    obtain ⟨rfl, hfree⟩ := hok
    obtain ⟨fd, rest, f, hperm, hf, -, rfl⟩ | ⟨t, ht, hname, hfresh, hlow, hnowhere, rfl, -⟩ :=
      start_of_orderly h hheld hfree hstep
    · exact h.taken hperm hheld
    · exact ht.bound hfresh hlow hname hnowhere
  | arrive p d =>
    cases hstep
    unfold Image.arrive
    split
    · rename_i fd f hlistens
      exact h.requeue (listener_eq_some hlistens).1 _ _ _
    · exact h
  | receive role =>
    simp only [Image.receive, Option.bind_eq_bind, Option.bind_eq_some_iff] at hstep
    obtain ⟨e, -, f, hf, hstep⟩ := hstep
    split at hstep
    · cases hstep
      exact h.requeue hf _ _ _
    · cases hstep
  | openFile fd cloexec =>
    obtain ⟨hfresh, heq⟩ := Option.ite_none_left_eq_some.1 hstep
    cases heq
    rw [not_or, Nat.not_le] at hfresh
    exact h.opened hfresh.1 hfresh.2 cloexec
  | closeFile fd =>
    obtain ⟨⟨hlow, hport⟩, heq⟩ := Option.ite_none_right_eq_some.1 hstep
    cases heq
    exact h.closedFile hlow hport
  | restart execs =>
    cases hstep
    obtain ⟨rfl, hinherited⟩ := hok
    exact h.restart hinherited

/-- **An image has its sockets.**  Over every run of images in which no one else has the
addresses and the program restarts in place once its roles are up: it never ends for want of an
address; each socket that is up or was handed over is open, is of the role's kind, and is the
role's alone, open across `exec` only until the role takes it; no other socket is open; and the
next image would be handed what is up. -/
theorem image_has_its_sockets {as : List (Action Addr)}
    (hok : Guarded step Orderly Image.first as) (h : exec step Image.first as = some s) :
    s.exited = false ∧
      (∀ e ∈ s.held, ∃ (role : Role) (addr : Addr) (f : File Addr), e.1 = role.name ∧
        s.files.lookup e.2 = some f ∧ f.port = some (role.kind, addr) ∧ f.cloexec = true) ∧
      (∀ e ∈ s.inherited, ∃ (role : Role) (addr : Addr) (f : File Addr), e.1 = role.name ∧
        s.files.lookup e.2 = some f ∧ f.port = some (role.kind, addr) ∧ f.cloexec = false) ∧
      (∀ fd f p, s.files.lookup fd = some f → f.port = some p →
        fd ∈ (s.held ++ s.inherited).map Prod.snd) ∧
      ((s.held ++ s.inherited).map Prod.fst).Nodup ∧
      ((s.held ++ s.inherited).map Prod.snd).Nodup ∧
      (s.restart true).inherited = s.held := by
  have hinv : Inv s := inv_of_exec step (fun _ _ _ ha hs => inv_step hs ha) Inv.first hok h
  have hopen : ∀ e ∈ s.named, ∃ (role : Role) (addr : Addr) (f : File Addr), e.1 = role.name ∧
      s.files.lookup e.2 = some f ∧ f.port = some (role.kind, addr) := by
    intro e he
    obtain ⟨role, hname, addr, hport⟩ := hinv.placed.role e he
    obtain ⟨f, hf, hp⟩ := ports_eq_some_iff.1 hport
    exact ⟨role, addr, f, hname, hf, hp⟩
  refine ⟨hinv.running, fun e he => ?_, fun e he => ?_, fun fd f p hf hp => ?_,
    hinv.placed.names, hinv.placed.fds, inherited_restart hinv⟩
  · obtain ⟨role, addr, f, hname, hf, hp⟩ := hopen e (List.mem_append_left _ he)
    exact ⟨role, addr, f, hname, hf, hp, hinv.held e he f hf⟩
  · obtain ⟨role, addr, f, hname, hf, hp⟩ := hopen e (List.mem_append_right _ he)
    exact ⟨role, addr, f, hname, hf, hp, hinv.inherited e he f hf⟩
  · exact hinv.placed.only fd p (ports_eq_some_iff.2 ⟨f, hf, hp⟩)

/-! ## What comes to a socket -/

/-- What of a log is of one place. -/
def atPort (p : Kind × Addr) (log : List ((Kind × Addr) × ℕ)) : List ℕ :=
  (log.filter fun x => x.1 = p).map Prod.snd

theorem atPort_append (p : Kind × Addr) (log : List ((Kind × Addr) × ℕ)) (q : Kind × Addr)
    (d : ℕ) : atPort p (log ++ [(q, d)]) = atPort p log ++ if q = p then [d] else [] := by
  rw [atPort, List.filter_append, List.map_append, atPort]
  by_cases hq : q = p
  · simp [hq]
  · simp [hq]

variable {addrOf : Role → Addr}

/-- Every image has its roles at the same addresses, and they are no one else's. -/
def Keeps (addrOf : Role → Addr) (s : Image Addr) : Action Addr → Prop
  | .start role addr nonblocking free _ => addr = addrOf role ∧ nonblocking = true ∧ free = true
  | .restart execs => execs = true ∧ s.inherited = []
  | _ => True

/-- What came to a socket was received or waits in it. -/
structure Kept (addrOf : Role → Addr) (s : Image Addr) : Prop where
  places : ∀ e ∈ s.named, ∀ role : Role, e.1 = role.name →
    s.ports e.2 = some (some (role.kind, addrOf role))
  lost : s.lost = []
  queued : ∀ fd f p, s.files.lookup fd = some f → f.port = some p →
    atPort p s.arrived = atPort p s.received ++ f.waiting
  quiet : ∀ p, (∀ fd, s.ports fd ≠ some (some p)) → atPort p s.arrived = atPort p s.received
  begun : ∀ role ∈ s.begun, role.name ∈ s.named.map Prod.fst

theorem Kept.first : Kept addrOf Image.first where
  places := nofun
  lost := rfl
  queued fd f p hf hp := by
    obtain ⟨e, he, -⟩ := List.mem_map.1
      (Inv.first.placed.only fd p (ports_eq_some_iff.2 ⟨f, hf, hp⟩))
    cases he
  quiet _ _ := rfl
  begun := nofun

theorem orderly_of_keeps
    (hapart : ∀ role role', role.kind = role'.kind → addrOf role = addrOf role' → role = role')
    (h : Inv s) (hkept : Kept addrOf s) {a : Action Addr} (ha : Keeps addrOf s a) :
    Orderly s a := by
  cases a with
  | start role addr nonblocking free fresh =>
    obtain ⟨rfl, -, hfree⟩ := ha
    refine ⟨hfree, fun e he hne hport => ?_⟩
    obtain ⟨role', hname, -⟩ := h.placed.role e he
    rw [hkept.places e he role' hname] at hport
    simp only [Option.some.injEq, Prod.mk.injEq] at hport
    exact hne (hapart role' role hport.1 hport.2 ▸ hname)
  | restart execs => exact ha
  | _ => trivial

/-- The sockets stay, with what waits in them. -/
theorem Kept.carry (h : Kept addrOf s) (hnamed : ∀ e ∈ s'.named, e ∈ s.named)
    (hports : ∀ fd p, s'.ports fd = some (some p) ↔ s.ports fd = some (some p))
    (hwaiting : ∀ fd f p, s'.files.lookup fd = some f → f.port = some p →
      ∃ g, s.files.lookup fd = some g ∧ g.port = some p ∧ g.waiting = f.waiting)
    (harrived : s'.arrived = s.arrived) (hreceived : s'.received = s.received)
    (hlost : s'.lost = s.lost) (hbegun : ∀ role ∈ s'.begun, role.name ∈ s'.named.map Prod.fst) :
    Kept addrOf s' where
  places e he role hname := (hports _ _).2 (h.places e (hnamed e he) role hname)
  lost := hlost.trans h.lost
  queued fd f p hf hp := by
    obtain ⟨g, hg, hgp, heq⟩ := hwaiting fd f p hf hp
    rw [harrived, hreceived, ← heq]
    exact h.queued fd g p hg hgp
  quiet p hp := by
    rw [harrived, hreceived]
    exact h.quiet p fun fd hport => hp fd ((hports fd p).2 hport)
  begun := hbegun

theorem Kept.taken (h : Kept addrOf s) {rest : List (Text × ℕ)}
    (hperm : s.inherited.Perm ((role.name, fd) :: rest))
    (hheld : role.name ∉ s.held.map Prod.fst) :
    Kept addrOf (Image.hold { s with
      inherited := rest, files := setCloexec s.files fd true } role fd) := by
  have hnamed : (Image.hold { s with
      inherited := rest, files := setCloexec s.files fd true } role fd).named.Perm s.named :=
    (@named_hold _ { s with inherited := rest, files := setCloexec s.files fd true } fd _
      hheld).trans ((hperm.append_left s.held).trans List.perm_middle).symm
  refine h.carry (fun e he => hnamed.mem_iff.1 he) (fun k p => ?_) (fun k f p hf hp => ?_)
    rfl rfl rfl (fun role' hrole' => ?_)
  · have hports := congrFun (ports_setCloexec s fd true) k
    exact hports ▸ Iff.rfl
  · have hf' : (setCloexec s.files fd true).lookup k = some f := hf
    rw [lookup_setCloexec] at hf'
    obtain ⟨g, hg, rfl⟩ := Option.map_eq_some_iff.1 hf'
    refine ⟨g, hg, ?_, ?_⟩
    · split at hp <;> exact hp
    · split <;> rfl
  · rw [(hnamed.map Prod.fst).mem_iff]
    obtain rfl | hrole' := List.mem_cons.1 hrole'
    · exact List.mem_map.2
        ⟨_, List.mem_append_right _ (hperm.mem_iff.2 (List.mem_cons_self ..)), rfl⟩
    · exact h.begun role' hrole'

theorem Kept.bound (h : Kept addrOf s) (hfresh : s.ports fresh = none)
    (hname : role.name ∉ s.named.map Prod.fst)
    (hfree : ∀ fd, s.ports fd ≠ some (some (role.kind, addrOf role))) :
    Kept addrOf (Image.hold { s with
      files := s.files.insert fresh ⟨some (role.kind, addrOf role), [], true⟩ } role fresh) := by
  have hheld : role.name ∉ s.held.map Prod.fst := fun hmem => hname (by
    rw [Image.named, List.map_append]
    exact List.mem_append_left _ hmem)
  have hnamed := @named_hold _ { s with
    files := s.files.insert fresh ⟨some (role.kind, addrOf role), [], true⟩ } fresh _ hheld
  have hports := ports_insert s fresh ⟨some (role.kind, addrOf role), [], true⟩
  refine ⟨fun e he role' hname' => ?_, h.lost, fun k f p hf hp => ?_, fun p hp => ?_,
    fun role' hrole' => ?_⟩
  · refine (congrFun hports e.2).trans ?_
    obtain rfl | he := List.mem_cons.1 (hnamed.mem_iff.1 he)
    · obtain rfl : role = role' := Role.name_injective hname'
      exact Function.update_self ..
    · have hport := h.places e he role' hname'
      have hne : e.2 ≠ fresh := by
        intro heq
        rw [heq, hfresh] at hport
        cases hport
      rw [Function.update_of_ne hne, hport]
  · have hf' : (s.files.insert fresh
        ⟨some (role.kind, addrOf role), [], true⟩).lookup k = some f := hf
    rw [Table.lookup_insert_eq] at hf'
    split at hf'
    · cases hf'
      cases hp
      exact (h.quiet _ hfree).trans (List.append_nil _).symm
    · exact h.queued k f p hf' hp
  · refine h.quiet p fun fd hport => ?_
    have hne : fd ≠ fresh := by
      rintro rfl
      rw [hfresh] at hport
      cases hport
    refine hp fd ((congrFun hports fd).trans ?_)
    rw [Function.update_of_ne hne, hport]
  · rw [(hnamed.map Prod.fst).mem_iff]
    obtain rfl | hrole' := List.mem_cons.1 hrole'
    · exact List.mem_cons_self ..
    · exact List.mem_cons_of_mem _ (h.begun role' hrole')

theorem Kept.restart (h : Kept addrOf s) (hinv : Inv s) (hinherited : s.inherited = []) :
    Kept addrOf (s.restart true) := by
  have hnamed : (s.restart true).named = s.named := by
    rw [Image.named, inherited_restart hinv, Image.named, hinherited, List.append_nil]
    rfl
  refine h.carry (fun e he => hnamed ▸ he) (fun fd p => ports_restart hinv hinherited)
    (fun fd f p hf hp => ?_) rfl rfl rfl (fun role hrole => hnamed ▸ h.begun role hrole)
  obtain ⟨g, hg, ⟨-, rfl⟩ | ⟨-, -, rfl⟩⟩ := lookup_restart.1 hf
  · exact ⟨g, hg, hp, rfl⟩
  · exact ⟨f, hg, hp, rfl⟩

/-- Something comes to a place, or leaves it for the program: the logs and the queue of the one
socket there move together. -/
theorem Kept.requeue (h : Kept addrOf s) (hinv : Inv s) {f : File Addr} {p : Kind × Addr}
    (hf : s.files.lookup fd = some f) (hp : f.port = some p) {waiting : List ℕ}
    {arrived received : List ((Kind × Addr) × ℕ)}
    (hhere : atPort p arrived = atPort p received ++ waiting)
    (hthere : ∀ q, q ≠ p → atPort q arrived = atPort q s.arrived ∧
      atPort q received = atPort q s.received) :
    Kept addrOf { s with
      files := s.files.insert fd { f with waiting := waiting }
      arrived := arrived
      received := received } := by
  have hports : Image.ports { s with
      files := s.files.insert fd { f with waiting := waiting } } = s.ports := by
    rw [ports_insert, Function.update_eq_self_iff, Image.ports, hf, Option.map_some]
  refine ⟨fun e he role hname => hports ▸ h.places e he role hname, h.lost,
    fun k g q hg hq => ?_, fun q hq => ?_, h.begun⟩
  · have hg' : (s.files.insert fd { f with waiting := waiting }).lookup k = some g := hg
    rw [Table.lookup_insert_eq] at hg'
    split at hg'
    · cases hg'
      obtain rfl : p = q := Option.some.inj (hp.symm.trans hq)
      exact hhere
    · rename_i hk
      have hqp : q ≠ p := by
        rintro rfl
        exact hk (hinv.placed.apart k fd q (ports_eq_some_iff.2 ⟨g, hg', hq⟩)
          (ports_eq_some_iff.2 ⟨f, hf, hp⟩))
      obtain ⟨harrived, hreceived⟩ := hthere q hqp
      rw [harrived, hreceived]
      exact h.queued k g q hg' hq
  · have hq' : ∀ k, s.ports k ≠ some (some q) := fun k => congrFun hports k ▸ hq k
    have hqp : q ≠ p := by
      rintro rfl
      exact hq' fd (ports_eq_some_iff.2 ⟨f, hf, hp⟩)
    obtain ⟨harrived, hreceived⟩ := hthere q hqp
    rw [harrived, hreceived]
    exact h.quiet q hq'

theorem kept_step {a : Action Addr} (h : Kept addrOf s) (hinv : Inv s) (hok : Orderly s a)
    (ha : Keeps addrOf s a) (hstep : step s a = some s') : Kept addrOf s' := by
  obtain ⟨-, hstep⟩ := Option.ite_none_left_eq_some.1 hstep
  cases a with
  | start role addr nonblocking free fresh =>
    obtain ⟨hheld, hstep⟩ := Option.ite_none_left_eq_some.1 hstep
    obtain ⟨rfl, rfl, rfl⟩ := ha
    obtain ⟨fd, rest, f, hperm, -, -, rfl⟩ | ⟨t, -, hname, hfresh, -, hnowhere, rfl, ht⟩ :=
      start_of_orderly hinv hheld hok.2 hstep
    · exact h.taken hperm hheld
    · obtain rfl | ⟨fd, rest, hperm, hdrop, -⟩ := ht
      · exact h.bound hfresh hname hnowhere
      · -- what was handed over is at the address, so it was not dropped
        have hport := h.places (role.name, fd)
          (List.mem_append_right _ (hperm.mem_iff.2 (List.mem_cons_self ..))) role rfl
        cases hdrop _ hport rfl
  | arrive p d =>
    cases hstep
    unfold Image.arrive
    split
    · rename_i fd f hlistens
      obtain ⟨hf, hp⟩ := listener_eq_some hlistens
      refine h.requeue hinv hf hp ?_ fun q hq => ⟨?_, rfl⟩
      · rw [atPort_append, if_pos rfl, h.queued fd f p hf hp, List.append_assoc]
      · rw [atPort_append, if_neg (Ne.symm hq), List.append_nil]
    · exact h
  | receive role =>
    simp only [Image.receive, Option.bind_eq_bind, Option.bind_eq_some_iff] at hstep
    obtain ⟨e, -, f, hf, hstep⟩ := hstep
    split at hstep
    · rename_i p d rest hp hwaiting
      cases hstep
      refine h.requeue hinv hf hp ?_ fun q hq => ⟨rfl, ?_⟩
      · rw [atPort_append, if_pos rfl, h.queued e.2 f p hf hp, hwaiting, List.append_assoc]
        rfl
      · rw [atPort_append, if_neg (Ne.symm hq), List.append_nil]
    · cases hstep
  | openFile fd cloexec =>
    obtain ⟨hfresh, heq⟩ := Option.ite_none_left_eq_some.1 hstep
    cases heq
    rw [not_or] at hfresh
    have hnone := AList.lookup_eq_none.2 hfresh.1
    refine h.carry (fun e he => he) (fun k p => ?_) (fun k f p hf hp => ?_) rfl rfl rfl h.begun
    · rw [ports_insert, Function.update_apply]
      split
      · rename_i hk
        rw [hk, Image.ports, hnone]
        simp
      · exact Iff.rfl
    · have hf' : (s.files.insert fd ⟨none, [], cloexec⟩).lookup k = some f := hf
      rw [Table.lookup_insert_eq] at hf'
      split at hf'
      · cases hf'
        cases hp
      · exact ⟨f, hf', hp, rfl⟩
  | closeFile fd =>
    obtain ⟨⟨-, hport⟩, heq⟩ := Option.ite_none_right_eq_some.1 hstep
    cases heq
    refine h.carry (fun e he => he) (fun k p => ?_) (fun k f p hf hp => ?_) rfl rfl rfl h.begun
    · rw [ports_erase, Function.update_apply]
      split
      · rename_i hk
        rw [hk, Image.ports, hport]
        simp
      · exact Iff.rfl
    · have hf' : (s.files.erase fd).lookup k = some f := hf
      rw [Table.lookup_erase_eq] at hf'
      split at hf'
      · cases hf'
      · exact ⟨f, hf', hp, rfl⟩
  | restart execs =>
    cases hstep
    obtain ⟨rfl, hinherited⟩ := ha
    exact h.restart hinv hinherited

/-- **A restart drops nothing.**  Over every run of images whose roles keep their addresses:
nothing is lost with a socket; of what came to the socket of a role the program received the
first, in the order it came and each once; and once a role has been up in some image its socket
is open, while it is up, during a restart and until it is up again, with all the rest in it. -/
theorem restart_drops_nothing
    (hapart : ∀ role role', role.kind = role'.kind → addrOf role = addrOf role' → role = role')
    {as : List (Action Addr)} (hkeeps : Guarded step (Keeps addrOf) Image.first as)
    (h : exec step Image.first as = some s) (role : Role) :
    s.lost = [] ∧
      atPort (role.kind, addrOf role) s.received <+: atPort (role.kind, addrOf role) s.arrived ∧
      (role ∈ s.begun → ∃ fd f, s.files.lookup fd = some f ∧
        f.port = some (role.kind, addrOf role) ∧
        atPort (role.kind, addrOf role) s.arrived =
          atPort (role.kind, addrOf role) s.received ++ f.waiting) := by
  have hboth : Inv s ∧ Kept addrOf s := by
    have hkept : ∀ t a t', Keeps addrOf t a → Inv t ∧ Kept addrOf t → step t a = some t' →
        Inv t' ∧ Kept addrOf t' := by
      intro t a t' ha ht hstep
      have hok := orderly_of_keeps hapart ht.1 ht.2 ha
      exact ⟨inv_step ht.1 hok hstep, kept_step ht.2 ht.1 hok ha hstep⟩
    exact inv_of_exec step hkept ⟨Inv.first, Kept.first⟩ hkeeps h
  obtain ⟨hinv, hkept⟩ := hboth
  refine ⟨hkept.lost, ?_, fun hbegun => ?_⟩
  · by_cases hopen : ∃ fd, s.ports fd = some (some (role.kind, addrOf role))
    · obtain ⟨fd, hport⟩ := hopen
      obtain ⟨f, hf, hp⟩ := ports_eq_some_iff.1 hport
      exact ⟨f.waiting, (hkept.queued fd f _ hf hp).symm⟩
    · rw [hkept.quiet _ fun fd hport => hopen ⟨fd, hport⟩]
  · obtain ⟨e, he, hname⟩ := List.mem_map.1 (hkept.begun role hbegun)
    obtain ⟨f, hf, hp⟩ := ports_eq_some_iff.1 (hkept.places e he role hname)
    exact ⟨e.2, f, hf, hp, hkept.queued e.2 f _ hf hp⟩

/-- A query comes in before a restart and another during it. -/
def oneRestart : List (Action ℕ) :=
  [.start .dnsUdp 53 true true 3, .arrive (.udp, 53) 7, .restart true, .arrive (.udp, 53) 8,
    .start .dnsUdp 53 true true 9, .receive .dnsUdp]

/-- DNS at one address, the panel at another. -/
def twoAddresses : Role → ℕ
  | .dnsUdp => 53
  | .dnsTcp => 53
  | .api => 80

theorem oneRestart_has_its_sockets :
    ∃ s, exec step Image.first oneRestart = some s ∧ s.held = [("dns-udp".toList, 3)] ∧
      s.exited = false ∧ (s.restart true).inherited = s.held := by
  have hrun : (exec step Image.first oneRestart).isSome := rfl
  obtain ⟨s, hs⟩ := Option.isSome_iff_exists.1 hrun
  have hok : Guarded step Orderly Image.first oneRestart := by
    refine ⟨⟨rfl, nofun⟩, fun _ h1 => ?_⟩
    cases h1
    refine ⟨trivial, fun _ h2 => ?_⟩
    cases h2
    refine ⟨⟨rfl, rfl⟩, fun _ h3 => ?_⟩
    cases h3
    refine ⟨trivial, fun _ h4 => ?_⟩
    cases h4
    refine ⟨⟨rfl, fun e he hne => ?_⟩, fun _ _ => ⟨trivial, fun _ _ => trivial⟩⟩
    have he' : e ∈ [("dns-udp".toList, 3)] := he
    rw [List.mem_singleton.1 he'] at hne
    exact absurd rfl hne
  have hsockets := image_has_its_sockets hok hs
  refine ⟨s, hs, ?_, hsockets.1, hsockets.2.2.2.2.2.2⟩
  cases hs
  rfl

theorem oneRestart_drops_nothing :
    ∃ s, exec step Image.first oneRestart = some s ∧
      atPort (.udp, 53) s.arrived = [7, 8] ∧ atPort (.udp, 53) s.received = [7] ∧ s.lost = [] := by
  have hrun : (exec step Image.first oneRestart).isSome := rfl
  obtain ⟨s, hs⟩ := Option.isSome_iff_exists.1 hrun
  have hkeeps : Guarded step (Keeps twoAddresses) Image.first oneRestart := by
    refine ⟨⟨rfl, rfl, rfl⟩, fun _ h1 => ?_⟩
    cases h1
    refine ⟨trivial, fun _ h2 => ?_⟩
    cases h2
    exact ⟨⟨rfl, rfl⟩, fun _ _ => ⟨trivial, fun _ _ => ⟨⟨rfl, rfl, rfl⟩,
      fun _ _ => ⟨trivial, fun _ _ => trivial⟩⟩⟩⟩
  have hapart : ∀ role role' : Role, role.kind = role'.kind →
      twoAddresses role = twoAddresses role' → role = role' := by
    intro role role'
    cases role <;> cases role' <;> decide
  have hdrops := restart_drops_nothing hapart hkeeps hs .dnsUdp
  refine ⟨s, hs, ?_, ?_, hdrops.1⟩
  · cases hs
    rfl
  · cases hs
    rfl

end Ferrite.Handover
