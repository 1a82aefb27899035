import KeosGrader.Processes
import KeosGrader.Grade

/-! The emulator's command line: `QEMU_CPU_TYPE`, `make_run_command`, and what `setup_gdb`, `run`
and `grade_single` append to it. Its first word and `-cdrom` image hold the signature
`find_qemu_pids` looks for, so a later run of the grader sees every emulator an earlier one
started. -/

namespace KeosGrader

/-- The exception that ends the script when the CPU check fails. -/
def cpuCheckError : String := "NameError: name 'eprint' is not defined"

/-- `QEMU_CPU_TYPE`, from what `cat /proc/cpuinfo` printed (`none` when `check_output` raises),
whether `QEMU_DISABLE_KVM` is set, and `QEMU_CPU_OPT`; `.error` is the exception that ends the
script while it loads. -/
def qemuCpuType (cpuinfo : Option (List UInt8)) (disableKvm : Bool) (cpuOpt : Option String) :
    Except String String :=
  match cpuinfo.bind decodeUtf8 with
  | none => .error cpuCheckError
  | some info =>
    if ("vmx".toList <:+: info ∨ "svm".toList <:+: info) ∧ disableKvm = false then
      .ok ("-cpu host" ++ cpuOpt.getD "" ++ " -enable-kvm")
    else .ok ("-M q35 -cpu qemu64" ++ cpuOpt.getD "" ++ ",x2apic")

theorem append_ne_of_not_prefix {p s : String} (hp : ¬ p.toList <+: s.toList) (x y : String) :
    p ++ x ++ y ≠ s := by
  rintro rfl
  exact hp ⟨x.toList ++ y.toList, (List.append_assoc _ _ _).symm⟩

/-- `QEMU_CPU_TYPE` is never the fallback `-cpu qemu64`: the script stops on the `NameError`
exactly when `cat` fails or prints bytes that are not UTF-8. -/
theorem qemuCpuType_never_fallback (cpuinfo : Option (List UInt8)) (disableKvm : Bool)
    (cpuOpt : Option String) :
    qemuCpuType cpuinfo disableKvm cpuOpt ≠ .ok "-cpu qemu64" ∧
      (qemuCpuType cpuinfo disableKvm cpuOpt = .error cpuCheckError ↔
        ∀ bytes, cpuinfo = some bytes → decodeUtf8 bytes = none) := by
  unfold qemuCpuType
  cases h : cpuinfo.bind decodeUtf8 with
  | none =>
    rw [Option.bind_eq_none] at h
    exact ⟨Except.noConfusion, iff_of_true rfl h⟩
  | some info =>
    have hsome : ¬ ∀ bytes, cpuinfo = some bytes → decodeUtf8 bytes = none := fun hn => by
      rw [← Option.bind_eq_none, h] at hn
      cases hn
    dsimp only
    split_ifs
    · refine ⟨fun he => ?_, iff_of_false id hsome⟩
      exact append_ne_of_not_prefix (by decide) _ _ (Except.ok.inj he)
    · refine ⟨fun he => ?_, iff_of_false id hsome⟩
      exact append_ne_of_not_prefix (by decide) _ _ (Except.ok.inj he)

/-- `s.split()`: the maximal runs of characters that are not whitespace. -/
def pySplit (s : List Char) : List (List Char) :=
  (s.splitOnP isPyWhitespace).filter fun w => !w.isEmpty

/-- `os.path.join(a, b)`. -/
def pathJoin (a b : String) : String :=
  if b.toList.head? = some '/' then b
  else if a.toList = [] ∨ a.toList.getLast? = some '/' then a ++ b
  else a ++ "/" ++ b

/-- `make_run_command(pj)`, with `outputDir` the directory of the kernel image. -/
def makeRunCommand (outputDir qemuCpuType : String) (pj : Int) : List String :=
  ["qemu-system-x86_64", "-nographic", "--boot", "d",
    "-cdrom", pathJoin outputDir "target/kernel.iso",
    "-device", "virtio-blk-pci,drive=kernel",
    "-drive", "format=raw,if=none,file=keos_kernel,id=kernel,cache=none,readonly=on",
    "-device", "virtio-blk-pci,drive=sfs",
    "-drive", "format=raw,if=none,file=sfs.bin,id=sfs,cache=none"] ++
  (if pj = 5 then
    ["-device", "virtio-blk-pci,drive=ffs",
      "-drive", "format=raw,if=none,file=ffs.bin,id=ffs,cache=none"]
  else []) ++
  (pySplit qemuCpuType.toList).map String.mk ++
  ["-serial", "mon:stdio", "-no-reboot"]

/-- The command `setup_gdb` returns: the emulator waits for a debugger before it runs. -/
def setupGdb (runCommand : List String) : List String := runCommand ++ ["-S"]

/-- The `grub.cfg` that `setup_kernel_arguments` writes; `kernelArg` is the kernel's command
line. -/
def setupKernelArguments (kernelArg : String) : String :=
  "set default='0'\nset timeout_style=hidden\nset timeout=0\n\nmenuentry 'keos' \x7b\n" ++
    "    multiboot2 /boot/keos " ++ kernelArg ++ "\n    boot\n\x7d\n"

/-- How the emulator is started: the `grub.cfg` written for it, and its argument vector. -/
structure Launch where
  grubCfg : String
  argv : List String
  deriving DecidableEq

/-- `run`, which replaces the script by the emulator: the kernel gets the script's arguments
after the mode, and the emulator `MP` CPUs, `MEM` of memory and the debugger port `-s`. -/
def run (runCommand args : List String) (mp mem : Option String) : Launch :=
  ⟨setupKernelArguments (" ".intercalate args),
    runCommand ++ ["-smp", mp.getD "4", "-m", mem.getD "1G", "-s"]⟩

/-- The emulator `grade_single` starts for one test, in either branch. -/
def gradeSingleLaunch (runCommand : List String) (inv : Invocation) : Launch :=
  ⟨setupKernelArguments ("--quite " ++ inv.target),
    runCommand ++ ["-smp", toString inv.cpu, "-m", inv.mem]⟩

/-- `/proc/<pid>/cmdline` of a process started with `argv`: each argument's bytes, then a NUL. -/
def procCmdline (argv : List String) : List UInt8 :=
  argv.flatMap fun a => encodeUtf8 a.toList ++ [0]

@[simp] theorem procCmdline_nil : procCmdline [] = [] := rfl

@[simp] theorem procCmdline_cons (a : String) (argv : List String) :
    procCmdline (a :: argv) = encodeUtf8 a.toList ++ [0] ++ procCmdline argv := rfl

@[simp] theorem procCmdline_append (a b : List String) :
    procCmdline (a ++ b) = procCmdline a ++ procCmdline b := List.flatMap_append _ _ _

/-- The command line of a process is the encoding of its arguments, each followed by NUL. -/
theorem procCmdline_eq_encodeUtf8 (argv : List String) :
    procCmdline argv = encodeUtf8 (argv.flatMap fun a => a.toList ++ ['\x00']) := by
  induction argv with
  | nil => rfl
  | cons a rest ih =>
    rw [procCmdline_cons, ih, List.flatMap_cons, encodeUtf8_append, encodeUtf8_append]
    rfl

theorem infix_procCmdline {argv : List String} {a : String} (ha : a ∈ argv) :
    encodeUtf8 a.toList <:+: procCmdline argv := by
  induction argv with
  | nil => cases ha
  | cons b rest ih =>
    rw [procCmdline_cons]
    rcases List.mem_cons.mp ha with rfl | h
    · exact ((List.prefix_append _ _).trans (List.prefix_append _ _)).isInfix
    · exact (ih h).trans (List.suffix_append _ _).isInfix

theorem suffix_pathJoin (a b : String) : b.toList <:+ (pathJoin a b).toList := by
  unfold pathJoin
  split_ifs
  · exact List.suffix_refl _
  · exact List.suffix_append _ _
  · exact List.suffix_append _ _

/-- The emulator's command line names the image by its full path, which ends in the signature's
second word. -/
theorem iso_infix_makeRunCommand (outputDir qemuCpuType : String) (pj : Int) :
    isoSignature <:+: (pathJoin outputDir "target/kernel.iso").toList ∧
      pathJoin outputDir "target/kernel.iso" ∈ makeRunCommand outputDir qemuCpuType pj := by
  refine ⟨?_, by simp [makeRunCommand]⟩
  have hs : isoSignature <:+ "target/kernel.iso".toList := ⟨"target/".toList, rfl⟩
  exact (hs.trans (suffix_pathJoin outputDir _)).isInfix

/-- The `/proc` entry of an emulator the grader started, named by its pid, is reported. -/
theorem qemuPidOf_emulator {outputDir qemuCpuType : String} {pj : Int} {extra : List String}
    {name : List Char} {pid : Nat} (hname : name ≠ [] ∧ ∀ c ∈ name, c.isDigit = true)
    (hpid : parseUnsigned name = some pid) :
    qemuPidOf ⟨name, some (procCmdline (makeRunCommand outputDir qemuCpuType pj ++ extra))⟩ =
      some pid := by
  obtain ⟨hiso, hmem⟩ := iso_infix_makeRunCommand outputDir qemuCpuType pj
  have hq : encodeUtf8 qemuSignature <:+: procCmdline (makeRunCommand outputDir qemuCpuType pj) :=
    infix_procCmdline (a := "qemu-system-x86_64") (by simp [makeRunCommand])
  have hi : encodeUtf8 isoSignature <:+: procCmdline (makeRunCommand outputDir qemuCpuType pj) :=
    ((infix_encodeUtf8 (by decide) (by decide) _).mpr hiso).trans (infix_procCmdline hmem)
  have hext : procCmdline (makeRunCommand outputDir qemuCpuType pj) <:+:
      procCmdline (makeRunCommand outputDir qemuCpuType pj ++ extra) := by
    rw [procCmdline_append]
    exact (List.prefix_append _ _).isInfix
  refine (qemuPidOf_eq_some _ _).mpr ⟨_, rfl, hname, hpid, ?_, hq.trans hext, hi.trans hext⟩
  rw [procCmdline_eq_encodeUtf8, decodeUtf8_encodeUtf8]
  rfl

/-- Every emulator the grader starts is reported by the next run's `find_qemu_pids`, whatever
the output directory, the CPU options and the arguments `setup_gdb`, `run` or `grade_single`
append: its command line is `make_run_command`'s list and more. -/
theorem findQemuPids_finds_emulator {outputDir qemuCpuType : String} {pj : Int}
    {extra : List String} {procs : List ProcEntry} {name : List Char} {pid : Nat}
    (he : ⟨name, some (procCmdline (makeRunCommand outputDir qemuCpuType pj ++ extra))⟩ ∈ procs)
    (hname : name ≠ [] ∧ ∀ c ∈ name, c.isDigit = true) (hpid : parseUnsigned name = some pid) :
    pid ∈ findQemuPids procs :=
  List.mem_filterMap.mpr ⟨_, he, qemuPidOf_emulator hname hpid⟩

/-- `cargo run` in `keos-project1` with the debugger, on a machine with virtualisation. -/
def debugRun : Launch :=
  run (setupGdb (makeRunCommand "target/x86_64-unknown-none/debug" "-cpu host -enable-kvm" 1))
    ["run"] none none

/-- The process table while that emulator runs as pid 4242. -/
def debugTable : List ProcEntry := [⟨"4242".toList, some (procCmdline debugRun.argv)⟩]

theorem debugTable_emulator :
    (⟨"4242".toList, some (procCmdline
      (makeRunCommand "target/x86_64-unknown-none/debug" "-cpu host -enable-kvm" 1 ++
        ["-S", "-smp", "4", "-m", "1G", "-s"]))⟩ : ProcEntry) ∈ debugTable := by
  simp [debugTable, debugRun, run, setupGdb]

theorem findQemuPids_finds_debugRun :
    ((⟨"4242".toList, some (procCmdline
        (makeRunCommand "target/x86_64-unknown-none/debug" "-cpu host -enable-kvm" 1 ++
          ["-S", "-smp", "4", "-m", "1G", "-s"]))⟩ : ProcEntry) ∈ debugTable ∧
      ("4242".toList ≠ [] ∧ ∀ c ∈ "4242".toList, c.isDigit = true) ∧
      parseUnsigned "4242".toList = some 4242) ∧
    4242 ∈ findQemuPids debugTable :=
  ⟨⟨debugTable_emulator, by decide, by decide⟩,
    findQemuPids_finds_emulator debugTable_emulator (by decide) (by decide)⟩

end KeosGrader
