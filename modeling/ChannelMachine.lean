import ChannelMachine.Main
import ChannelMachine.Proofs.Code.Listing
import ChannelMachine.Proofs.Files
import ChannelMachine.Proofs.Heap.Boxing
import ChannelMachine.Proofs.Heap.Queueing
import ChannelMachine.Proofs.Heap.Scoping
import ChannelMachine.Proofs.Machine.Searching
import ChannelMachine.Proofs.Meaning.Preservation
import ChannelMachine.Proofs.Run.Collection
import ChannelMachine.Proofs.Run.Commuting
import ChannelMachine.Proofs.Run.Comparing
import ChannelMachine.Proofs.Run.Constants
import ChannelMachine.Proofs.Run.Deadlock
import ChannelMachine.Proofs.Run.Delivery
import ChannelMachine.Proofs.Run.Exhaustion
import ChannelMachine.Proofs.Run.Isolation
import ChannelMachine.Proofs.Run.Loops
import ChannelMachine.Proofs.Run.Preemption
import ChannelMachine.Proofs.Run.Printing
import ChannelMachine.Proofs.Run.Rendezvous
import ChannelMachine.Proofs.Run.Returning
import ChannelMachine.Proofs.Run.Solitary
import ChannelMachine.Proofs.Run.Spawning
import ChannelMachine.Proofs.Run.Stacks
import ChannelMachine.Proofs.Run.TailCalls
import ChannelMachine.Proofs.Run.Threads
import ChannelMachine.Proofs.Run.Typing
import ChannelMachine.Proofs.Source.Arrangement
import ChannelMachine.Proofs.Source.Lexical
import ChannelMachine.Proofs.Source.WellFormed
