import HCraft.Entity.Lemmas.Tracked
import HCraft.Network.Connection.Lemmas.Segmentation
import HCraft.Network.Handlers.Mc18
import HCraft.Util.ThreadPool.Lemmas.RefCounter
import HCraft.Util.ThreadPool.Lemmas.Join
import HCraft.Network.Connection.Lemmas.Compressed
import HCraft.World.Providers.Anvil.Lemmas.Store
import HCraft.Network.Transformers.ZlibMc18.Lemmas.RoundTrip
import HCraft.Util.Nbt.Lemmas.RoundTrip
import HCraft.Util.Nbt.Lemmas.Safe
import HCraft.World.Providers.Anvil.Lemmas.ChunkNbt
import HCraft.Network.Packet.Lemmas.Frame
import HCraft.Network.Handlers.Mc18.Lemmas.Login
import HCraft.Network.Connection.Lemmas.Send
import HCraft.World.AsyncGenerator.Lemmas.Token
import HCraft.System.Server.Lemmas.Players
import HCraft.Util.Json.Lemmas.RoundTrip
import HCraft.Util.Json.Lemmas.Accepts
import HCraft.World.Providers.Anvil.Lemmas.Load
import HCraft.World.Memory.Lemmas.Load
import HCraft.World.Lighting.Lemmas.Settles
import HCraft.World.Access.Lemmas.ReadBack
import HCraft.World.Access.Lemmas.NullSafe
import HCraft.World.Lighting.Lemmas.Agreement
import HCraft.World.Chunk.Lemmas.Independent
import HCraft.Network.Builders.Mc18.Lemmas.ChunkData
import HCraft.Util.ThreadPool.Release
import HCraft.Util.ThreadPool.Lemmas.Release
import HCraft.Network.Handlers.Mc18.Lemmas.Reads
import HCraft.Player.StreamChunks.Lemmas.Held
import HCraft.Player.StreamChunks.Lemmas.InView
import HCraft.Player.StreamChunks.Lemmas.Pass
import HCraft.Cmd.CommandReader.Impl
import HCraft.Cmd.CommandReader.Lemmas.Parse
import HCraft.Cmd.CommandReader.Lemmas.Quoted
import HCraft.Inv.Window.Impl
import HCraft.Inv.Window.Lemmas.Add
import HCraft.Lib.Digits
import HCraft.Network.Handlers.Mc18.Fields
import HCraft.Network.Handlers.Mc18.Lemmas.Fields
import HCraft.Network.Handlers.Mc18.Lemmas.Play
import HCraft.Network.Packet.Lemmas.McString
import HCraft.Player.OnPlace.Impl
import HCraft.Player.OnPlace.Lemmas.Stored
import HCraft.System.Authenticator.Lemmas.Digest
import HCraft.Util.Binary.Lemmas.Agree
import HCraft.Util.Binary.Lemmas.Varint
import HCraft.Util.Position
import HCraft.System.Server.Workers
import HCraft.Util.ByteBuffer.Memory
import HCraft.Util.ByteBuffer.Lemmas.Memory
import HCraft.Network.Packet.Memory
import HCraft.Network.Packet.Lemmas.Memory
import HCraft.Entity.Metadata
import HCraft.Entity.Lemmas.Metadata
import HCraft.Util.Json.Lemmas.Integers
import HCraft.Lib.Scan
import HCraft.Util.Json.Lemmas.Valid
import HCraft.System.Server.Config
import HCraft.Lib.Pipeline
import HCraft.Network.Connection.Pipeline
import HCraft.Network.Connection.Lemmas.Pipeline
import HCraft.Util.Nbt.Lemmas.Strings
import HCraft.World.Providers.Anvil.LevelDat
import HCraft.World.Providers.Anvil.Lemmas.LevelDat
import HCraft.World.WorldGenerator
import HCraft.World.LoadFrom.Impl
import HCraft.World.LoadFrom.Lemmas.Save
import HCraft.World.LoadFrom.Lemmas.Load
import HCraft.World.LoadFrom.Lemmas.Restored
import HCraft.Network.Connection.Lemmas.Encrypted
import HCraft.Network.Connection.Lemmas.Sealed
import HCraft.Network.Connection.Lemmas.Jobs
import HCraft.Util.Scheduler.Lemmas.Pass
import HCraft.Util.Scheduler.Lemmas.Timer
import HCraft.Util.Scheduler.Lemmas.Restart
import HCraft.Network.Handlers.Infer.Lemmas.Inferred
import HCraft.Entity.PlayerList.Lemmas.Listed
import HCraft.Util.Uuid.Lemmas.Text
import HCraft.Network.Builders.Mc18.Client
import HCraft.Network.Builders.Mc18.Lemmas.Message
import HCraft.Network.Builders.Mc18.Lemmas.Client
import HCraft.World.Providers.Anvil.Lemmas.Disk
import HCraft.System.Server.Broadcast
import HCraft.System.Server.Lemmas.Chats
import HCraft.System.Server.Lemmas.Understood
import HCraft.World.Access.Lemmas.Finishes
