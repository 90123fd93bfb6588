import KernelReplay.Machine.State
import KernelReplay.Table.Lemmas

/-
  The state seen through its queries: what each change does to the threads, descriptors, CPUs, disks
  and interfaces that can be looked up.
-/

namespace KernelReplay.State

variable (s : State)

theorem thread?_setThread (tid k : Int) (t : Thread) :
    (s.setThread tid t).thread? k = if k = tid then some t else s.thread? k :=
  Table.get?_insert ..

theorem thread?_updateThread (tid k : Int) (f : Thread → Thread) :
    (s.updateThread tid f).thread? k =
      if k = tid then some (f (s.threadOrFresh tid)) else s.thread? k :=
  Table.get?_insert ..

theorem thread?_admitThread (tid k : Int) :
    (s.admitThread tid).thread? k = if k = tid then some (s.threadOrFresh tid) else s.thread? k :=
  s.thread?_updateThread tid k id

theorem thread?_adjustThread (tid k : Int) (f : Thread → Thread) :
    (s.adjustThread tid f).thread? k = if k = tid then (s.thread? k).map f else s.thread? k :=
  Table.get?_adjust ..

theorem thread?_adjustRequest (tid k : Int) (f : IoRequest → IoRequest) :
    (s.adjustRequest tid f).thread? k = (s.thread? k).map fun t =>
      if k = tid then t.mapRequest f else t := by
  rw [adjustRequest, thread?_adjustThread]
  by_cases hk : k = tid <;> simp [hk]

/-- Adjusting one descriptor shows in its own table and nowhere else. -/
theorem fds_adjustFd (tid number k : Int) (f : Fd → Fd) :
    (s.adjustFd tid number f).fds k =
      if k = tid then (s.fds k).adjust number f else s.fds k := by
  rw [fds, adjustFd, thread?_adjustThread]
  by_cases hk : k = tid
  · subst hk
    cases ht : s.thread? k
    · simp [fds, ht]
      rfl
    · simp [fds, ht]
  · simp [fds, hk]

theorem ownFd?_adjustFd (tid number k n : Int) (f : Fd → Fd) :
    (s.adjustFd tid number f).ownFd? k n =
      if k = tid ∧ n = number then (s.ownFd? k n).map f else s.ownFd? k n := by
  rw [ownFd?, fds_adjustFd]
  by_cases hk : k = tid
  · simp [hk, Table.get?_adjust, ownFd?]
  · simp [hk, ownFd?]

theorem cpu?_updateCpu (cpu k : Nat) (f : Cpu → Cpu) :
    (s.updateCpu cpu f).cpus.get? k =
      if k = cpu then some (f (s.cpuOrFresh cpu)) else s.cpus.get? k :=
  Table.get?_insert ..

theorem running?_updateCpu (cpu k : Nat) (f : Cpu → Cpu) :
    (s.updateCpu cpu f).running? k =
      if k = cpu then (f (s.cpuOrFresh cpu)).current else s.running? k := by
  rw [running?, cpu?_updateCpu]
  by_cases hk : k = cpu <;> simp [hk, running?]

theorem disk?_updateDisk (dev k : Nat) (f : Disk → Disk) :
    (s.updateDisk dev f).disks.get? k =
      if k = dev then some (f ((s.disks.get? dev).getD { dev })) else s.disks.get? k :=
  Table.get?_insert ..

theorem mem_disks_updateDisk (dev k : Nat) (f : Disk → Disk) :
    k ∈ (s.updateDisk dev f).disks ↔ k = dev ∨ k ∈ s.disks := by
  rw [Table.mem_iff, disk?_updateDisk, Table.mem_iff]
  by_cases hk : k = dev <;> simp [hk]

theorem iface?_updateIface (name k : String) (f : Iface → Iface) :
    (s.updateIface name f).ifaces.get? k =
      if k = name then some (f ((s.ifaces.get? name).getD { name })) else s.ifaces.get? k :=
  Table.get?_insert ..

end KernelReplay.State
