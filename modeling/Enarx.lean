import Enarx.Bytes
import Enarx.CLayout
import Enarx.Sallyport.Libc
import Enarx.Sallyport.Block
import Enarx.Sallyport.BlockSafety
import Enarx.Sallyport.Alloc
import Enarx.Sallyport.Segment
import Enarx.Sallyport.Syscall.Types
import Enarx.Sallyport.Syscall.Calls
import Enarx.Sallyport.Syscall.Basic
import Enarx.Sallyport.Syscall.Spec
import Enarx.Sallyport.Call
import Enarx.Sallyport.Leaf
import Enarx.Sallyport.Encoding
import Enarx.Sallyport.Agreement
import Enarx.Sallyport.Collection
import Enarx.Sallyport.Secrecy
import Enarx.Interference
import Enarx.Snp.World
import Enarx.Snp.Exchange
import Enarx.Snp.Replay
import Enarx.Sallyport.Handler
import Enarx.Sallyport.Dispatch
import Enarx.Sallyport.Policy
import Enarx.Sallyport.Sandbox
import Enarx.Sallyport.Requests
import Enarx.Sallyport.Linux
import Enarx.Sallyport.Footprint
import Enarx.Sallyport.KernelFootprint
import Enarx.Sallyport.Arguments
import Enarx.Sallyport.Allocation
import Enarx.Sallyport.Results
import Enarx.Sallyport.Failure
import Enarx.Kvm.Addr
import Enarx.Kvm.PageTable
import Enarx.Kvm.Pagetables
import Enarx.Kvm.Sharing
import Enarx.Kvm.Boot
import Enarx.Kvm.Allocator
import Enarx.Kvm.Hostcall
import Enarx.Kvm.Edits
import Enarx.Kvm.Ownership
import Enarx.Kvm.Mapped
import Enarx.Backend.Replies
import Enarx.Snp.Cpuid
import Enarx.Backend.Vcek
import Enarx.Kvm.Blocks
import Enarx.Kvm.PageState
import Enarx.Wasmtime.Connection
import Enarx.Wasmtime.Tls
import Enarx.Sgx.Epcm
import Enarx.Sgx.Handler
import Enarx.Kvm.Lines
import Enarx.Shims.Brk
import Enarx.Sgx.Steps
import Enarx.Kvm.Unmapped
import Enarx.Kvm.Walk
import Enarx.Shims.Munmap
import Enarx.Kvm.Allocation
import Enarx.Kvm.Requests
import Enarx.Kvm.Rollback
import Enarx.Kvm.Start
import Enarx.Kvm.Outcomes
import Enarx.Kvm.Balloon
import Enarx.Kvm.Slots
import Enarx.Kvm.Supply
import Enarx.Kvm.Starvation
import Enarx.Kvm.SmashOnce
import Enarx.Sallyport.Signals
import Enarx.Sallyport.WriteAll
import Enarx.Sallyport.Reservation
import Enarx.Wasmtime.Files
import Enarx.Shims.Gdb
import Enarx.Backend.EnclaveCalls
import Enarx.Backend.Loader
import Enarx.Backend.Malformed
import Enarx.Backend.Image
import Enarx.Backend.Measurement
import Enarx.Der
import Enarx.Snp.Attestation
import Enarx.Sallyport.Vectored
import Enarx.Sallyport.Poll
import Enarx.Kvm.Calls
import Enarx.Kvm.Layout
import Enarx.Kvm.Frames
import Enarx.Kvm.Protection
import Enarx.Sgx.Exclusive
import Enarx.Sgx.Agreement
import Enarx.Kvm.Contents
import Enarx.Shims.Mremap
