import ConstructionRobot.Lib.Text
import ConstructionRobot.Lib.Traced

/-!
# The variables of the shell (`var`, `var_register` in `apid_exfunc.c`)

A variable is registered under a name, with its address and one of six types. The command `var`
lists the names, prints a variable, sets it from a text, or copies another variable to it.

A call of `var` logs the bytes that it reads and writes, and what it prints (`VarEvent`). Memory is
a byte for each address; address 0 is the null pointer, and an access there is a fault.

* `varFind_eq`: the search finds the first variable of the name, and follows a null pointer if
  nothing is registered.
* `varSwitch_ret`: the accesses of the `switch` over the type.
* `VarSafe`: what a call may do; `varSafe_iff`: when it keeps to that. An assignment copies with the
  width of its destination, whatever the type of the source.
-/

namespace Robot

namespace VarShell

/-- `var_type_e`: `_8`, `_16`, `_32`, `_64`, `_f` and `_lf`. -/
inductive VarType where
  | i8
  | i16
  | i32
  | i64
  | f
  | lf
  deriving DecidableEq, Repr

/-- `sizeof` of the type that `var` uses for it. -/
def VarType.size : VarType → ℕ
  | i8 => 1
  | i16 => 2
  | i32 => 4
  | i64 => 8
  | f => 4
  | lf => 8

/-- `var_list_t`. The order of a `List VarList` is that of the pointers `next`. -/
structure VarList where
  name : Text
  body : ℕ
  type : VarType
  deriving DecidableEq, Repr

/-- `var_register`; `mallocs` are the results of its two calls of `VAR_MALLOC`. The second one is
not checked before `strcpy`. -/
def varRegister (list : List VarList) (mallocs : Bool × Bool) (var : ℕ) (name : Option Text)
    (type : VarType) : Call (List VarList) :=
  if !mallocs.1 then .ret list
  else if var = 0 then .ret list
  else
    match name with
    | none => .ret list
    | some name => if mallocs.2 then .ret (list ++ [{ name, body := var, type }]) else .fault

/-- The lists that calls of `var_register` build. -/
inductive Registry : List VarList → Prop
  | empty : Registry []
  | register {list list' : List VarList} (mallocs : Bool × Bool) (var : ℕ) (name : Option Text)
      (type : VarType) (h : Registry list)
      (hret : varRegister list mallocs var name type = .ret list') : Registry list'

/-! ## The command -/

/-- What a call of `var` does. -/
inductive VarEvent where
  /-- reads the `size` bytes from `addr` on -/
  | read (addr size : ℕ)
  /-- writes the `size` bytes from `addr` on -/
  | write (addr size : ℕ)
  /-- `var_logInfo` -/
  | logInfo (format : String) (name : Text) (value : List UInt8)
  deriving DecidableEq, Repr

/-- A byte for each address. -/
abbrev Mem := ℕ → UInt8

/-- The `size` bytes from `addr` on. -/
def Mem.take (mem : Mem) (addr size : ℕ) : List UInt8 :=
  (List.range size).map fun i => mem (addr + i)

/-- Memory with `bytes` from `addr` on. -/
def Mem.put (mem : Mem) (addr : ℕ) (bytes : List UInt8) : Mem := fun x =>
  if addr ≤ x ∧ x < addr + bytes.length then bytes.getD (x - addr) 0 else mem x

/-- Reads an object of `size` bytes. -/
def load (mem : Mem) (addr size : ℕ) : Traced VarEvent (List UInt8) :=
  if addr = 0 then ⟨[], .fault⟩ else ⟨[.read addr size], .ret (mem.take addr size)⟩

/-- Writes an object. -/
def store (mem : Mem) (addr : ℕ) (bytes : List UInt8) : Traced VarEvent Mem :=
  if addr = 0 then ⟨[], .fault⟩ else ⟨[.write addr bytes.length], .ret (mem.put addr bytes)⟩

/-- `atof`, and the conversion of its result to `float`; both as the bits of the number. -/
structure FloatLib where
  atof : Text → UInt64
  toFloat : UInt64 → UInt32

/-- The value that a text has for a variable of the type. -/
def parse (lib : FloatLib) (type : VarType) (text : Text) : List UInt8 :=
  match type with
  | .f => leBytes 4 (lib.toFloat (lib.atof text)).toNat
  | .lf => leBytes 8 (lib.atof text).toNat
  | _ => leBytes type.size (atoi text)

/-- The format with which a value is printed. -/
def VarType.format : VarType → String
  | f => "%s is %f\r\n"
  | lf => "%s is %lf\r\n"
  | _ => "%s is %d\r\n"

/-- The bytes that are printed: of `_64` the lower half. -/
def VarType.printed : VarType → ℕ
  | i64 => 4
  | type => type.size

/-- The assignment of a case of the `switch`; `second` is `_var_second` if `is_assign` is set. -/
def varAssign (lib : FloatLib) (argv : List Text) (mem : Mem) (var : VarList)
    (second : Option VarList) : Traced VarEvent Mem :=
  match second with
  | some second => do
    let bytes ← load mem second.body var.type.size
    store mem var.body bytes
  | none =>
    if argv.length = 3 then store mem var.body (parse lib var.type (argv.getD 2 [])) else pure mem

/-- The `switch`. The cases differ in the type they use. -/
def varSwitch (lib : FloatLib) (argv : List Text) (mem : Mem) (var : VarList)
    (second : Option VarList) : Traced VarEvent Mem := do
  let mem ← varAssign lib argv mem var second
  let value ← load mem var.body var.type.printed
  Traced.emit (.logInfo var.type.format var.name value)
  pure mem

/-- The search loop: `_var` is dereferenced before it is compared with 0. -/
def varFind (text : Text) : List VarList → Call (Option VarList)
  | [] => .fault
  | var :: next =>
    if text = var.name then .ret (some var)
    else
      match next with
      | [] => .ret none
      | _ :: _ => varFind text next

/-- The loop that prints all names. -/
def varNames (format : String) : List VarList → Traced VarEvent Unit
  | [] => pure ()
  | var :: next => do
    Traced.emit (.logInfo format var.name [])
    varNames format next

/-- Behind the first search, for `argc` from 2 to 4. -/
def varFound (lib : FloatLib) (list : List VarList) (argv : List Text) (mem : Mem)
    (var : VarList) : Traced VarEvent Mem :=
  match argv with
  | [_, _, op, text] =>
    if op = ['='] then do
      match ← liftM (varFind text list) with
      | none => do
        Traced.emit (.logInfo "There's no variable here(var tow)\r\n" [] [])
        pure mem
      | some second => varSwitch lib argv mem var (some second)
    else varSwitch lib argv mem var none
  | _ => varSwitch lib argv mem var none

/-- `var`, with `argc` the length of `argv`; the memory after the call. -/
def var (lib : FloatLib) (list : List VarList) (argv : List Text) (mem : Mem) :
    Traced VarEvent Mem :=
  if argv.length = 1 then do
    Traced.emit (.logInfo "\r\n" [] [])
    varNames "\t-- %s \r\n" list
    pure mem
  else if argv.length > 4 then do
    Traced.emit (.logInfo "paramer error\r\n" [] [])
    pure mem
  else
    match argv[1]? with
    | none => ⟨[], .fault⟩
    | some name =>
      if name = ['a', 'l', 'l'] then do
        varNames "\t--%s \r\n" list
        pure mem
      else do
        match ← liftM (varFind name list) with
        | none => do
          Traced.emit (.logInfo "We don't have that variable here\r\n" [] [])
          pure mem
        | some var => varFound lib list argv mem var

/-! ## What a call may do -/

/-- The first variable registered under a name. -/
def first (list : List VarList) (text : Text) : Option VarList :=
  list.find? fun var => text = var.name

/-- The variable that the command line is about. -/
def target (list : List VarList) (argv : List Text) : Option VarList := argv[1]?.bind (first list)

/-- The variable that it copies. -/
def source (list : List VarList) (argv : List Text) : Option VarList := argv[3]?.bind (first list)

/-- The address is one of the bytes of the variable. -/
def VarList.Has (var : VarList) (x : ℕ) : Prop := var.body ≤ x ∧ x < var.body + var.type.size

/-- The `size` bytes from `addr` on are bytes of the variables. -/
def Inside (vars : List VarList) (addr size : ℕ) : Prop :=
  ∀ x, addr ≤ x → x < addr + size → ∃ var ∈ vars, var.Has x

/-- The call returns, reads only bytes of `vars`, and writes only bytes of `dst`. -/
structure Tidy (vars : List VarList) (dst : Option VarList) (mem : Mem)
    (c : Traced VarEvent Mem) : Prop where
  returns : ∃ mem', c.res = .ret mem'
  reads : ∀ addr size, .read addr size ∈ c.log → Inside vars addr size
  writes : ∀ addr size, .write addr size ∈ c.log → Inside dst.toList addr size
  keeps : ∀ mem', c.res = .ret mem' → ∀ x, (∀ var ∈ dst, ¬ var.Has x) → mem' x = mem x

/-- The call is tidy with the variables named on the line, and changes nothing if one of the names
is not registered. -/
structure VarSafe (lib : FloatLib) (list : List VarList) (argv : List Text) (mem : Mem) : Prop where
  tidy : Tidy ((target list argv).toList ++ (source list argv).toList) (target list argv) mem
    (var lib list argv mem)
  unknown : ∀ mem', (var lib list argv mem).res = .ret mem' →
    ∀ text, argv[1]? = some text ∨ argv[3]? = some text → first list text = none → mem' = mem

/-- A search starts with nothing registered. -/
def NullSearch (list : List VarList) (argv : List Text) : Prop :=
  list = [] ∧ 2 ≤ argv.length ∧ argv.length ≤ 4 ∧ argv[1]? ≠ some ['a', 'l', 'l']

/-- An assignment from a narrower variable, and the bytes behind that one are not all bytes of the
destination. -/
def WideRead (list : List VarList) (argv : List Text) : Prop :=
  ∃ cmd name text dst src, argv = [cmd, name, ['='], text] ∧ name ≠ ['a', 'l', 'l'] ∧
    first list name = some dst ∧ first list text = some src ∧ src.type.size < dst.type.size ∧
    ¬ (src.body ≤ dst.body ∧ dst.body ≤ src.body + src.type.size)

/-! ## Lemmas -/

variable {lib : FloatLib} {list : List VarList} {argv : List Text} {mem : Mem} {text : Text}

/-- A call of `var_register` that returns leaves the list, or puts one variable at its end. -/
theorem varRegister_ret {list' : List VarList} {mallocs : Bool × Bool} {var : ℕ}
    {name : Option Text} {type : VarType} (h : varRegister list mallocs var name type = .ret list') :
    list' = list ∨
      var ≠ 0 ∧ ∃ text, list' = list ++ [{ name := text, body := var, type := type }] := by
  unfold varRegister at h
  split at h
  · cases h
    exact .inl rfl
  · split at h
    · cases h
      exact .inl rfl
    · next hvar =>
      cases name with
      | none =>
        cases h
        exact .inl rfl
      | some text =>
        simp only at h
        split at h
        · cases h
          exact .inr ⟨hvar, text, rfl⟩
        · cases h

theorem Registry.body_ne_zero (h : Registry list) : ∀ var ∈ list, var.body ≠ 0 := by
  induction h with
  | empty => simp
  | register mallocs var name type _ hret ih =>
    rcases varRegister_ret hret with rfl | ⟨hvar, text, rfl⟩
    · exact ih
    · intro v hv
      rcases List.mem_append.mp hv with hv | hv
      · exact ih v hv
      · rw [List.mem_singleton] at hv
        rw [hv]
        exact hvar

theorem first_body_ne_zero (hreg : Registry list) {var : VarList}
    (h : first list text = some var) : var.body ≠ 0 :=
  hreg.body_ne_zero var (List.mem_of_find?_eq_some h)

theorem varFind_eq : varFind text list = if list = [] then .fault else .ret (first list text) := by
  fun_induction varFind text list with
  | case1 => rfl
  | case2 var next h => simp [first, h]
  | case3 var h => simp [first, h]
  | case4 var h next next' ih =>
    rw [ih]
    simp [first, h]

@[simp] theorem printed_le (type : VarType) : type.printed ≤ type.size := by
  cases type <;> decide

@[simp] theorem parse_length (type : VarType) : (parse lib type text).length = type.size := by
  cases type <;> simp [parse, VarType.size]

/-- The bytes of a variable are inside. -/
theorem inside_of_mem {vars : List VarList} {var : VarList} {size : ℕ} (h : var ∈ vars)
    (hsize : size ≤ var.type.size) : Inside vars var.body size :=
  fun _ h1 h2 => ⟨var, h, h1, by omega⟩

theorem Mem.put_of_not_has {var : VarList} {bytes : List UInt8} {x : ℕ}
    (hlen : bytes.length = var.type.size) (hx : ¬ var.Has x) :
    mem.put var.body bytes x = mem x := by
  unfold Mem.put
  rw [hlen]
  exact if_neg hx

/-- An event that is not an access. -/
def VarEvent.IsPrint : VarEvent → Prop
  | logInfo _ _ _ => True
  | _ => False

/-- A call that only prints. -/
theorem tidy_of_prints {vars : List VarList} {dst : Option VarList} {c : Traced VarEvent Mem}
    (hres : c.res = .ret mem) (hlog : ∀ e ∈ c.log, e.IsPrint) : Tidy vars dst mem c := by
  refine ⟨⟨mem, hres⟩, ?_, ?_, ?_⟩
  · intro addr size h
    cases hlog _ h
  · intro addr size h
    cases hlog _ h
  · intro mem' h x _
    rw [hres] at h
    cases h
    rfl

theorem varNames_eq (format : String) :
    varNames format list = ⟨list.map fun var => .logInfo format var.name [], .ret ()⟩ := by
  induction list with
  | nil => rfl
  | cons var next ih =>
    rw [varNames, ih]
    rfl

theorem isPrint_of_mem_names {format : String} {e : VarEvent}
    (h : e ∈ (varNames format list).log) : e.IsPrint := by
  rw [varNames_eq] at h
  obtain ⟨var, -, rfl⟩ := List.mem_map.mp h
  trivial

/-! ## The `switch` -/

section Switch

variable {vars : List VarList} {dst : Option VarList} {var second : VarList}

/-- What a call leaves is printed: this reads the variable once more. -/
theorem varSwitch_eq {snd : Option VarList} {l : List VarEvent} {mem' : Mem} (hvar : var.body ≠ 0)
    (h : varAssign lib argv mem var snd = ⟨l, .ret mem'⟩) :
    varSwitch lib argv mem var snd =
      ⟨l ++ [.read var.body var.type.printed,
        .logInfo var.type.format var.name (mem'.take var.body var.type.printed)], .ret mem'⟩ := by
  rw [varSwitch, h, Traced.mk_ret_bind]
  simp only [load, if_neg hvar]
  rfl

theorem varSwitch_tidy {snd : Option VarList} (hvar : var.body ≠ 0) (hmem : var ∈ vars)
    (h : Tidy vars dst mem (varAssign lib argv mem var snd)) :
    Tidy vars dst mem (varSwitch lib argv mem var snd) := by
  obtain ⟨mem', hres⟩ := h.returns
  rw [varSwitch_eq hvar (show varAssign lib argv mem var snd = ⟨_, .ret mem'⟩ by rw [← hres])]
  refine ⟨⟨mem', rfl⟩, ?_, ?_, ?_⟩
  · intro addr size hin
    simp only [List.mem_append, List.mem_cons, List.not_mem_nil, or_false, reduceCtorEq,
      VarEvent.read.injEq] at hin
    rcases hin with hin | ⟨rfl, rfl⟩
    · exact h.reads _ _ hin
    · exact inside_of_mem hmem (printed_le _)
  · intro addr size hin
    simp only [List.mem_append, List.mem_cons, List.not_mem_nil, or_false, reduceCtorEq] at hin
    exact h.writes _ _ hin
  · intro mem'' hret x hx
    cases hret
    exact h.keeps _ hres x hx

/-- A write of a value of the type of the variable. -/
theorem store_tidy {bytes : List UInt8} (hvar : var.body ≠ 0)
    (hlen : bytes.length = var.type.size) :
    Tidy vars (some var) mem (store mem var.body bytes) := by
  rw [store, if_neg hvar, hlen]
  refine ⟨⟨_, rfl⟩, ?_, ?_, ?_⟩
  · intro addr size hin
    simp at hin
  · intro addr size hin
    simp only [List.mem_singleton, VarEvent.write.injEq] at hin
    obtain ⟨rfl, rfl⟩ := hin
    exact inside_of_mem (by simp) le_rfl
  · intro mem' hret x hx
    cases hret
    exact Mem.put_of_not_has hlen (hx var rfl)

/-- Without a second variable the assignment keeps to the one it was given. -/
theorem varAssign_none_tidy (hvar : var.body ≠ 0) :
    Tidy vars (some var) mem (varAssign lib argv mem var none) := by
  by_cases hargc : argv.length = 3
  · simp only [varAssign, if_pos hargc]
    exact store_tidy hvar (parse_length _)
  · simp only [varAssign, if_neg hargc]
    apply tidy_of_prints rfl
    intro e he
    cases he

/-- A copy has the width of the destination. -/
theorem varAssign_some_eq (hsecond : second.body ≠ 0) :
    varAssign lib argv mem var (some second) =
      ⟨.read second.body var.type.size ::
        (store mem var.body (mem.take second.body var.type.size)).log,
        (store mem var.body (mem.take second.body var.type.size)).res⟩ := by
  simp only [varAssign, load, if_neg hsecond]
  rfl

theorem varAssign_some_tidy (hvar : var.body ≠ 0) (hsecond : second.body ≠ 0)
    (hin : Inside vars second.body var.type.size) :
    Tidy vars (some var) mem (varAssign lib argv mem var (some second)) := by
  have hstore : Tidy vars (some var) mem
      (store mem var.body (mem.take second.body var.type.size)) :=
    store_tidy hvar (by simp [Mem.take])
  rw [varAssign_some_eq hsecond]
  refine ⟨hstore.returns, ?_, ?_, hstore.keeps⟩
  · intro addr size h
    rcases List.mem_cons.mp h with h | h
    · cases h
      exact hin
    · exact hstore.reads _ _ h
  · intro addr size h
    rcases List.mem_cons.mp h with h | h
    · cases h
    · exact hstore.writes _ _ h

/-- The read of a copy is in the log of the `switch`. -/
theorem varSwitch_reads (hsecond : second.body ≠ 0) :
    .read second.body var.type.size ∈ (varSwitch lib argv mem var (some second)).log := by
  apply Traced.mem_bind_log
  rw [varAssign_some_eq hsecond]
  exact List.mem_cons_self

end Switch

/-! ## The command line -/

/-- A copy reads inside the two variables exactly if the source is not narrower, or if the rest that
is read belongs to the destination. -/
theorem inside_pair_iff {dst src : VarList} :
    Inside [dst, src] src.body dst.type.size ↔ dst.type.size ≤ src.type.size ∨
      (src.body ≤ dst.body ∧ dst.body ≤ src.body + src.type.size) := by
  constructor
  · intro h
    by_contra hwide
    -- the first byte behind the source, and the last one that is read
    have hfirst := h (src.body + src.type.size) (by omega) (by omega)
    have hlast := h (src.body + dst.type.size - 1) (by omega) (by omega)
    simp only [List.mem_cons, List.not_mem_nil, or_false, exists_eq_or_imp, exists_eq_left,
      VarList.Has] at hfirst hlast
    omega
  · intro h x h1 h2
    simp only [List.mem_cons, List.not_mem_nil, or_false, exists_eq_or_imp, exists_eq_left,
      VarList.Has]
    omega

section Line

variable {name : Text} (h2 : 2 ≤ argv.length) (h4 : argv.length ≤ 4) (hname : argv[1]? = some name)
  (hall : name ≠ ['a', 'l', 'l'])

include h2 h4 hname hall

theorem var_null : (var lib [] argv mem).res = .fault := by
  unfold var
  rw [if_neg (by omega), if_neg (by omega), hname]
  simp only [if_neg hall]
  rfl

theorem var_line (hne : list ≠ []) :
    var lib list argv mem =
      match first list name with
      | none => ⟨[.logInfo "We don't have that variable here\r\n" [] []], .ret mem⟩
      | some var => varFound lib list argv mem var := by
  unfold var
  rw [if_neg (by omega), if_neg (by omega), hname]
  simp only [if_neg hall, varFind_eq, if_neg hne, Traced.liftM_ret_bind]
  cases first list name with
  | none => rfl
  | some var => rfl

end Line

/-- All other command lines only print. -/
theorem var_prints
    (h : argv.length = 1 ∨ 4 < argv.length ∨ argv[1]? = some ['a', 'l', 'l']) :
    (var lib list argv mem).res = .ret mem ∧ ∀ e ∈ (var lib list argv mem).log, e.IsPrint := by
  unfold var
  by_cases h1 : argv.length = 1
  · rw [if_pos h1]
    refine ⟨by rw [varNames_eq]; rfl, ?_⟩
    rw [Traced.forall_bind_log, Traced.forall_bind_log]
    refine ⟨?_, fun _ _ => ⟨fun e he => isPrint_of_mem_names he, ?_⟩⟩
    · simp [Traced.emit, VarEvent.IsPrint]
    · simp [Traced.pure_def]
  · rw [if_neg h1]
    by_cases h5 : argv.length > 4
    · rw [if_pos h5]
      refine ⟨rfl, ?_⟩
      rw [Traced.forall_bind_log]
      simp [Traced.emit, Traced.pure_def, VarEvent.IsPrint]
    · have hname : argv[1]? = some ['a', 'l', 'l'] := by
        rcases h with h | h | h
        · exact absurd h h1
        · exact absurd h h5
        · exact h
      rw [if_neg h5, hname]
      simp only [↓reduceIte]
      refine ⟨by rw [varNames_eq]; rfl, ?_⟩
      rw [Traced.forall_bind_log]
      exact ⟨fun e he => isPrint_of_mem_names he, by simp [Traced.pure_def]⟩

/-! ## Behind the first search -/

section Found

variable {cmd name : Text} {dst : VarList}

theorem varFound_assign (hne : list ≠ []) :
    varFound lib list [cmd, name, ['='], text] mem dst =
      match first list text with
      | none => ⟨[.logInfo "There's no variable here(var tow)\r\n" [] []], .ret mem⟩
      | some second => varSwitch lib [cmd, name, ['='], text] mem dst (some second) := by
  simp only [varFound, ↓reduceIte, varFind_eq, if_neg hne, Traced.liftM_ret_bind]
  cases first list text with
  | none => rfl
  | some second => rfl

theorem varFound_other (h : ∀ cmd name text, argv ≠ [cmd, name, ['='], text]) :
    varFound lib list argv mem dst = varSwitch lib argv mem dst none := by
  unfold varFound
  split
  · next cmd name op text =>
    have hop : op ≠ ['='] := by
      rintro rfl
      exact h cmd name text rfl
    rw [if_neg hop]
  · rfl

/-- A line of four that is no assignment prints. -/
theorem varSwitch_res (hdst : dst.body ≠ 0) (hargc : argv.length ≠ 3) :
    (varSwitch lib argv mem dst none).res = .ret mem := by
  have hassign : varAssign lib argv mem dst none = ⟨[], .ret mem⟩ := by
    simp only [varAssign, if_neg hargc]
    rfl
  rw [varSwitch_eq hdst hassign]

end Found

/-! ## When a call is safe -/

theorem VarSafe.not_nullSearch (h : VarSafe lib list argv mem) : ¬ NullSearch list argv := by
  rintro ⟨rfl, h2, h4, hall⟩
  obtain ⟨mem', hret⟩ := h.tidy.returns
  have hname : argv[1]? = some (argv.get ⟨1, h2⟩) := List.getElem?_eq_getElem h2
  have hne : argv.get ⟨1, h2⟩ ≠ ['a', 'l', 'l'] := by
    intro heq
    rw [heq] at hname
    exact hall hname
  rw [var_null h2 h4 hname hne] at hret
  cases hret

theorem VarSafe.not_wideRead (hreg : Registry list) (h : VarSafe lib list argv mem) :
    ¬ WideRead list argv := by
  rintro ⟨cmd, name, text, dst, src, rfl, hall, hdst, hsrc, hsize, hbody⟩
  have hne : list ≠ [] := List.ne_nil_of_mem (List.mem_of_find?_eq_some hdst)
  have hvar : var lib list [cmd, name, ['='], text] mem =
      varSwitch lib [cmd, name, ['='], text] mem dst (some src) := by
    rw [var_line (by simp) (by simp) rfl hall hne, hdst]
    simp only [varFound_assign hne, hsrc]
  have hread : .read src.body dst.type.size ∈ (var lib list [cmd, name, ['='], text] mem).log := by
    rw [hvar]
    exact varSwitch_reads (first_body_ne_zero hreg hsrc)
  have hin := h.tidy.reads _ _ hread
  simp only [target, source, List.getElem?_cons_succ, List.getElem?_cons_zero, Option.bind_some,
    hdst, hsrc, Option.toList_some, List.singleton_append] at hin
  rcases inside_pair_iff.mp hin with h | h
  · omega
  · exact hbody h

/-- A call that only prints is safe. -/
theorem varSafe_of_prints (hres : (var lib list argv mem).res = .ret mem)
    (hlog : ∀ e ∈ (var lib list argv mem).log, e.IsPrint) : VarSafe lib list argv mem := by
  refine ⟨tidy_of_prints hres hlog, ?_⟩
  intro mem' hret _ _ _
  rw [hres] at hret
  cases hret
  rfl

/-- The `switch` without a second variable. -/
theorem varSafe_of_single (hreg : Registry list) {dst : VarList}
    (hdst : target list argv = some dst)
    (hvar : var lib list argv mem = varSwitch lib argv mem dst none) :
    VarSafe lib list argv mem := by
  obtain ⟨name, hname, hfirst⟩ := Option.bind_eq_some_iff.mp hdst
  have hbody := first_body_ne_zero hreg hfirst
  constructor
  · rw [hdst, hvar]
    exact varSwitch_tidy hbody (by simp) (varAssign_none_tidy hbody)
  · intro mem' hret text htext hnone
    rcases htext with htext | htext
    · rw [hname, Option.some.injEq] at htext
      rw [← htext, hfirst] at hnone
      cases hnone
    · -- there is a fourth word, so nothing was set
      have hlen := (List.getElem?_eq_some_iff.mp htext).1
      rw [hvar, varSwitch_res hbody (by omega)] at hret
      cases hret
      rfl

/-- An assignment. -/
theorem varSafe_of_assign (hreg : Registry list) {cmd name : Text} {dst : VarList}
    (hall : name ≠ ['a', 'l', 'l']) (hdst : first list name = some dst)
    (hw : ¬ WideRead list [cmd, name, ['='], text]) :
    VarSafe lib list [cmd, name, ['='], text] mem := by
  have hne : list ≠ [] := List.ne_nil_of_mem (List.mem_of_find?_eq_some hdst)
  have hvar : var lib list [cmd, name, ['='], text] mem =
      varFound lib list [cmd, name, ['='], text] mem dst := by
    rw [var_line (by simp) (by simp) rfl hall hne, hdst]
  rw [varFound_assign hne] at hvar
  cases hsrc : first list text with
  | none =>
    rw [hsrc] at hvar
    apply varSafe_of_prints
    · rw [hvar]
    · simp [hvar, VarEvent.IsPrint]
  | some src =>
    rw [hsrc] at hvar
    have hsafe : dst.type.size ≤ src.type.size ∨
        (src.body ≤ dst.body ∧ dst.body ≤ src.body + src.type.size) := by
      by_contra hnot
      rw [not_or] at hnot
      exact hw ⟨cmd, name, text, dst, src, rfl, hall, hdst, hsrc, by omega, hnot.2⟩
    have htarget : target list [cmd, name, ['='], text] = some dst := hdst
    have hsource : source list [cmd, name, ['='], text] = some src := hsrc
    have hbody := first_body_ne_zero hreg hdst
    constructor
    · rw [htarget, hsource, hvar]
      apply varSwitch_tidy hbody (by simp)
      exact varAssign_some_tidy hbody (first_body_ne_zero hreg hsrc) (inside_pair_iff.mpr hsafe)
    · intro mem' _ text' htext hnone
      rcases htext with htext | htext
      · cases htext
        rw [hdst] at hnone
        cases hnone
      · cases htext
        rw [hsrc] at hnone
        cases hnone

/-- For every list that `var_register` can build, and every command line, the call is safe exactly
if it does not search an empty list and does not read behind a narrower variable. -/
theorem varSafe_iff (lib : FloatLib) (list : List VarList) (argv : List Text) (mem : Mem)
    (hreg : Registry list) (hargc : 1 ≤ argv.length) :
    VarSafe lib list argv mem ↔ ¬ NullSearch list argv ∧ ¬ WideRead list argv := by
  refine ⟨fun h => ⟨h.not_nullSearch, h.not_wideRead hreg⟩, ?_⟩
  rintro ⟨hnull, hwide⟩
  by_cases hp : argv.length = 1 ∨ 4 < argv.length ∨ argv[1]? = some ['a', 'l', 'l']
  · obtain ⟨hres, hlog⟩ := var_prints hp
    exact varSafe_of_prints hres hlog
  · rw [not_or, not_or] at hp
    obtain ⟨h1, h5, hnotall⟩ := hp
    have h2 : 2 ≤ argv.length := by omega
    have h4 : argv.length ≤ 4 := by omega
    obtain ⟨name, hname⟩ : ∃ name, argv[1]? = some name := ⟨_, List.getElem?_eq_getElem h2⟩
    have hall : name ≠ ['a', 'l', 'l'] := by
      rintro rfl
      exact hnotall hname
    have hne : list ≠ [] := fun h => hnull ⟨h, h2, h4, hnotall⟩
    have hline : var lib list argv mem = _ := var_line h2 h4 hname hall hne
    cases hfirst : first list name with
    | none =>
      rw [hfirst] at hline
      apply varSafe_of_prints
      · rw [hline]
      · simp [hline, VarEvent.IsPrint]
    | some dst =>
      by_cases hassign : ∃ cmd name text, argv = [cmd, name, ['='], text]
      · obtain ⟨cmd, name', text, rfl⟩ := hassign
        cases hname
        exact varSafe_of_assign hreg hall hfirst hwide
      · have htarget : target list argv = some dst := by
          rw [target, hname]
          exact hfirst
        rw [hfirst] at hline
        apply varSafe_of_single hreg htarget
        rw [hline]
        exact varFound_other fun cmd name text h => hassign ⟨cmd, name, text, h⟩

/-- A word and a byte, as two calls of `var_register` leave them. -/
def wordAndByte : List VarList := [⟨['a'], 100, .i32⟩, ⟨['b'], 200, .i8⟩]

theorem wordAndByte_registry : Registry wordAndByte :=
  .register (true, true) 200 (some ['b']) .i8
    (.register (true, true) 100 (some ['a']) .i32 .empty rfl) rfl

/-- A library for lines without a number in them. -/
def noFloat : FloatLib := ⟨fun _ => 0, fun _ => 0⟩

theorem varSafe_byte_of_word :
    VarSafe noFloat wordAndByte [['v', 'a', 'r'], ['b'], ['='], ['a']] fun _ => 0 := by
  refine (varSafe_iff noFloat wordAndByte _ _ wordAndByte_registry (by decide)).mpr ⟨?_, ?_⟩
  · rintro ⟨hnil, -⟩
    cases hnil
  · rintro ⟨cmd, name, text, dst, src, hargv, -, hdst, hsrc, hsize, -⟩
    cases hargv
    cases hdst
    cases hsrc
    exact absurd hsize (by decide)

/-- `var x` with nothing registered, and `var a = b` from a byte to a word. -/
theorem var_unsafe :
    (Registry [] ∧ ¬ VarSafe noFloat [] [['v', 'a', 'r'], ['x']] fun _ => 0) ∧
      (Registry wordAndByte ∧
        ¬ VarSafe noFloat wordAndByte [['v', 'a', 'r'], ['a'], ['='], ['b']] fun _ => 0) := by
  refine ⟨⟨.empty, ?_⟩, wordAndByte_registry, ?_⟩
  · intro h
    exact h.not_nullSearch ⟨rfl, by decide, by decide, by decide⟩
  · intro h
    apply h.not_wideRead wordAndByte_registry
    exact ⟨_, _, _, _, _, rfl, by decide, rfl, rfl, by decide, by decide⟩

end VarShell

end Robot
